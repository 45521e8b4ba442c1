import LiteralFill.Expr.Operator

namespace LiteralFill

/-- Positions are lines of a layout, counted from one. Zero stands for none. -/
def noPos : Nat := 0

/-- A position as a text, with a dash for none. -/
def showPos (pos : Nat) : String := if pos = noPos then "-" else toString pos

inductive LitKind where
  | int | float | imag | char | string
  deriving DecidableEq, Repr

/-- An expression with a position for each of its tokens. A function literal is kept as its source. -/
inductive Expr where
  | ident (name : String) (pos : Nat)
  | basicLit (kind : LitKind) (value : String) (pos : Nat)
  | compositeLit (type? : Option Expr) (lbrace : Nat) (elts : List Expr) (rbrace : Nat)
  | keyValue (key : Expr) (colon : Nat) (value : Expr)
  | binary (x : Expr) (opPos : Nat) (op : BinaryOp) (y : Expr)
  | unary (opPos : Nat) (op : UnaryOp) (x : Expr)
  | call (callee : Expr) (lparen : Nat) (args : List Expr) (spread : Bool) (rparen : Nat)
  | selector (x : Expr) (name : String) (namePos : Nat)
  | index (x : Expr) (lbrack : Nat) (index : Expr) (rbrack : Nat)
  | slice (x : Expr) (lbrack : Nat) (low? high? max? : Option Expr) (threeIndex : Bool) (rbrack : Nat)
  | star (starPos : Nat) (x : Expr)
  | paren (lparen : Nat) (x : Expr) (rparen : Nat)
  | funcLit (pos : Nat) (source : String)
  | ellipsis (pos : Nat) (elt? : Option Expr)
  | arrayType (lbrack : Nat) (len? : Option Expr) (elt : Expr)
  | mapType (pos : Nat) (key value : Expr)
  deriving Repr

instance : Inhabited Expr := ⟨.ident "" noPos⟩

/-- A composite literal. -/
structure Literal where
  type? : Option Expr
  lbrace : Nat
  elts : List Expr
  rbrace : Nat

def Literal.toExpr (lit : Literal) : Expr := .compositeLit lit.type? lit.lbrace lit.elts lit.rbrace

/-- An identifier that has no position yet. -/
def Expr.name (name : String) : Expr := .ident name noPos

/-- The value of a field, under its name. -/
def Expr.entry (field : String) (value : Expr) : Expr := .keyValue (.name field) noPos value

mutual

/-- The position of the first token. -/
def Expr.firstPos : Expr → Nat
  | .ident _ pos => pos
  | .basicLit _ _ pos => pos
  | .compositeLit type? lbrace _ _ => firstPosOr lbrace type?
  | .keyValue key _ _ => key.firstPos
  | .binary x _ _ _ => x.firstPos
  | .unary opPos _ _ => opPos
  | .call callee _ _ _ _ => callee.firstPos
  | .selector x _ _ => x.firstPos
  | .index x _ _ _ => x.firstPos
  | .slice x _ _ _ _ _ _ => x.firstPos
  | .star starPos _ => starPos
  | .paren lparen _ _ => lparen
  | .funcLit pos _ => pos
  | .ellipsis pos _ => pos
  | .arrayType lbrack _ _ => lbrack
  | .mapType pos _ _ => pos

def firstPosOr (otherwise : Nat) : Option Expr → Nat
  | none => otherwise
  | some e => e.firstPos

end

mutual

/-- The position of the last token. -/
def Expr.lastPos : Expr → Nat
  | .ident _ pos => pos
  | .basicLit _ _ pos => pos
  | .compositeLit _ _ _ rbrace => rbrace
  | .keyValue _ _ value => value.lastPos
  | .binary _ _ _ y => y.lastPos
  | .unary _ _ x => x.lastPos
  | .call _ _ _ _ rparen => rparen
  | .selector _ _ namePos => namePos
  | .index _ _ _ rbrack => rbrack
  | .slice _ _ _ _ _ _ rbrack => rbrack
  | .star _ x => x.lastPos
  | .paren _ _ rparen => rparen
  | .funcLit pos _ => pos
  | .ellipsis pos elt? => lastPosOr pos elt?
  | .arrayType _ _ elt => elt.lastPos
  | .mapType _ _ value => value.lastPos

def lastPosOr (otherwise : Nat) : Option Expr → Nat
  | none => otherwise
  | some e => e.lastPos

end

end LiteralFill
