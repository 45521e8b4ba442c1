import LiteralFill.Printer.Columns
import LiteralFill.Printer.Spacing

namespace LiteralFill

/-- Binding strengths of the places an expression can stand in. -/
def lowestPrec : Nat := 0
def unaryPrec : Nat := 6
def highestPrec : Nat := 7

/-- The line of a position in a layout of `lines` lines, zero if it has none. -/
def lineOf (lines : Nat) (pos : Nat) : Nat := min pos (max lines 1)

def parenthesize (wrap : Bool) (text : String) : String :=
  if wrap then "(" ++ text ++ ")" else text

/-- A colon between two bounds, with blanks towards those that are there. -/
def sliceColon (blanks : Bool) (left right : Option String) : String :=
  (if blanks && left.isSome then " " else "") ++ ":" ++ (if blanks && right.isSome then " " else "")

/-- The bounds of a slice expression; the third only where the expression calls for it. -/
def sliceBounds (blanks three : Bool) (low high max : Option String) : String :=
  low.getD "" ++ sliceColon blanks low high ++ high.getD "" ++
    if three then sliceColon blanks high max ++ max.getD "" else ""

/-- Bounds with operators in them get blanks around the colons, unless nested. -/
def sliceNeedsBlanks (depth : Nat) (bounds : List (Option Expr)) : Bool :=
  let present := bounds.filterMap id
  depth ≤ 1 && 1 < present.length && present.any (·.binaryOp?.isSome)

/-- Whether all elements stand on the line of the opening brace. -/
def onOneLine (lines : Nat) (lbrace : Nat) (elts : List Expr) : Bool :=
  let line := lineOf lines lbrace
  0 < line && (elts.head?.map (lineOf lines ·.firstPos)) == some line &&
    (elts.getLast?.map (lineOf lines ·.lastPos)) == some line

mutual

/-- The expression as text, in a layout of `lines` lines, at a place of binding strength `prec`,
nested `depth` deep among operators and indented by `indent` tabs. -/
def Expr.print (lines prec depth indent : Nat) : Expr → String
  | .ident name _ => name
  | .basicLit _ value _ => value
  | .compositeLit type? lbrace elts rbrace =>
    let inside :=
      if elts.isEmpty then ""
      else if onOneLine lines lbrace elts then
        ", ".intercalate ((printCells lines indent elts).map Cell.text)
      else brokenList ⟨lineOf lines lbrace, lineOf lines rbrace, 0 < lbrace && 0 < rbrace⟩ indent
        (printCells lines (indent + 1) elts)
    (printOpt lines highestPrec depth indent type?).getD "" ++ "\x7b" ++ inside ++ "\x7d"
  | .keyValue key _ value =>
    key.print lines lowestPrec 1 indent ++ ": " ++ value.print lines lowestPrec 1 indent
  | .binary x opPos op y =>
    let wrap := decide (op.precedence < prec)
    let depth := if wrap then reduceDepth (max depth 1) else max depth 1
    let left := x.print lines op.precedence (depth + x.depthStep op.precedence) indent
    let right := y.print lines (op.precedence + 1) (depth + 1) indent
    let cutoff := (Expr.binary x opPos op y).mix.cutoff depth
    parenthesize wrap
      (left ++ if op.precedence < cutoff then " " ++ op.symbol ++ " " ++ right else glue op.symbol right)
  | .unary _ op x =>
    let wrap := decide (unaryPrec < prec)
    let depth := if wrap then reduceDepth depth else depth
    parenthesize wrap (glue op.symbol (x.print lines unaryPrec depth indent))
  | .star _ x => parenthesize (unaryPrec < prec) ("*" ++ x.print lines lowestPrec 1 indent)
  | .call callee _ args spread _ =>
    let depth := if 1 < args.length then depth + 1 else depth
    callee.print lines highestPrec depth indent ++ "(" ++
      ", ".intercalate (printArgs lines depth indent args) ++ (if spread then "..." else "") ++ ")"
  | .selector x name _ => x.print lines highestPrec depth indent ++ "." ++ name
  | .index x _ index _ =>
    x.print lines highestPrec 1 indent ++ "[" ++ index.print lines lowestPrec (depth + 1) indent ++ "]"
  | .slice x _ low? high? max? threeIndex _ =>
    let three := threeIndex || max?.isSome
    let blanks := sliceNeedsBlanks depth (low? :: high? :: if three then [max?] else [])
    x.print lines highestPrec 1 indent ++ "[" ++
      sliceBounds blanks three (printOpt lines lowestPrec (depth + 1) indent low?)
        (printOpt lines lowestPrec (depth + 1) indent high?)
        (printOpt lines lowestPrec (depth + 1) indent max?) ++ "]"
  | .paren _ x _ => "(" ++ x.print lines lowestPrec (reduceDepth depth) indent ++ ")"
  | .funcLit _ source => source
  | .ellipsis _ elt? => "..." ++ (printOpt lines lowestPrec 1 indent elt?).getD ""
  | .arrayType _ len? elt =>
    "[" ++ (printOpt lines lowestPrec 1 indent len?).getD "" ++ "]" ++
      elt.print lines lowestPrec 1 indent
  | .mapType _ key value =>
    "map[" ++ key.print lines lowestPrec 1 indent ++ "]" ++ value.print lines lowestPrec 1 indent

def printOpt (lines prec depth indent : Nat) : Option Expr → Option String
  | none => none
  | some e => some (e.print lines prec depth indent)

def printArgs (lines depth indent : Nat) : List Expr → List String
  | [] => []
  | e :: rest => e.print lines lowestPrec depth indent :: printArgs lines depth indent rest

def printCells (lines indent : Nat) : List Expr → List Cell
  | [] => []
  | .keyValue key colon value :: rest =>
    ⟨some (key.print lines lowestPrec 1 indent), value.print lines lowestPrec 1 indent,
      lineOf lines (Expr.keyValue key colon value).firstPos,
      lineOf lines (Expr.keyValue key colon value).lastPos⟩ :: printCells lines indent rest
  | e :: rest =>
    ⟨none, e.print lines lowestPrec 1 indent, lineOf lines e.firstPos, lineOf lines e.lastPos⟩ ::
      printCells lines indent rest

end

/-- The expression as source text, its positions read as lines of a layout of `lines` lines. -/
def Expr.format (e : Expr) (lines : Nat) : String := e.print lines lowestPrec 1 0

end LiteralFill
