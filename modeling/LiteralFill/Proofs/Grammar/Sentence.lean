import LiteralFill.Expr.Basic
import LiteralFill.Proofs.Grammar.Lexeme

namespace LiteralFill

open Lexeme (symbol word)

/-- The binary operators by the strength with which they bind, and how they are written. -/
def binaryAt : Nat → List (String × BinaryOp)
  | 1 => [("||", .logicalOr)]
  | 2 => [("&&", .logicalAnd)]
  | 3 => [("==", .equals), ("!=", .notEquals), ("<", .lessThan), ("<=", .lessThanEq),
    (">", .greaterThan), (">=", .greaterThanEq)]
  | 4 => [("+", .add), ("-", .subtract), ("|", .bitwiseOr), ("^", .bitwiseXor)]
  | 5 => [("*", .multiply), ("/", .divide), ("%", .modulus), ("<<", .leftShift), (">>", .rightShift),
    ("&", .bitwiseAnd), ("&^", .bitClear)]
  | _ => []

def unaryOps : List (String × UnaryOp) :=
  [("+", .plus), ("-", .negate), ("!", .not), ("^", .bitComplement), ("&", .addressOf),
    ("<-", .receive)]

/-- A symbol that may be there. -/
def optionally (present : Bool) (op : String) : List Lexeme := if present then [symbol op] else []

variable (A : Alphabet)

mutual

/-- The grammar of expressions whose operands are identifiers. An expression of strength `p` can be an
operand of operators of precedence below `p`, from the left also of precedence `p`; unary expressions
have strength 6 and primary expressions strength 7. -/
inductive Reads : Nat → List Lexeme → Expr → Prop where
  | ident {name : String} : A.IsIdentifier name → Reads 7 [word name] (.ident name noPos)
  | paren {ts : List Lexeme} {x : Expr} :
    Reads 0 ts x → Reads 7 (symbol "(" :: (ts ++ [symbol ")"])) (.paren noPos x noPos)
  | selector {ts : List Lexeme} {x : Expr} {name : String} : Reads 7 ts x → A.IsIdentifier name →
    Reads 7 (ts ++ [symbol ".", word name]) (.selector x name noPos)
  | index {ts us : List Lexeme} {x i : Expr} : Reads 7 ts x → Reads 0 us i →
    Reads 7 (ts ++ symbol "[" :: (us ++ [symbol "]"])) (.index x noPos i noPos)
  | slice {ts us vs : List Lexeme} {x : Expr} {low? high? : Option Expr} :
    Reads 7 ts x → ReadsBound us low? → ReadsBound vs high? →
      Reads 7 (ts ++ symbol "[" :: (us ++ symbol ":" :: (vs ++ [symbol "]"])))
        (.slice x noPos low? high? none false noPos)
  | sliceThree {ts us vs ws : List Lexeme} {x high max : Expr} {low? : Option Expr} :
    Reads 7 ts x → ReadsBound us low? → Reads 0 vs high → Reads 0 ws max →
      Reads 7 (ts ++ symbol "[" :: (us ++ symbol ":" :: (vs ++ symbol ":" :: (ws ++ [symbol "]"]))))
        (.slice x noPos low? (some high) (some max) true noPos)
  | callNone {ts : List Lexeme} {f : Expr} :
    Reads 7 ts f → Reads 7 (ts ++ [symbol "(", symbol ")"]) (.call f noPos [] false noPos)
  | call {ts us : List Lexeme} {f : Expr} {args : List Expr} (spread comma : Bool) :
    Reads 7 ts f → ReadsArgs us args →
      Reads 7 (ts ++ symbol "(" ::
        (us ++ (optionally spread "..." ++ (optionally comma "," ++ [symbol ")"]))))
        (.call f noPos args spread noPos)
  | unary {s : String} {op : UnaryOp} {ts : List Lexeme} {x : Expr} :
    (s, op) ∈ unaryOps → Reads 6 ts x → Reads 6 (symbol s :: ts) (.unary noPos op x)
  | star {ts : List Lexeme} {x : Expr} : Reads 6 ts x → Reads 6 (symbol "*" :: ts) (.star noPos x)
  | binary {p : Nat} {s : String} {op : BinaryOp} {ts us : List Lexeme} {x y : Expr} :
    (s, op) ∈ binaryAt p → Reads p ts x → Reads (p + 1) us y →
      Reads p (ts ++ symbol s :: us) (.binary x noPos op y)
  | weaken {p q : Nat} {ts : List Lexeme} {x : Expr} : p ≤ q → Reads q ts x → Reads p ts x

inductive ReadsBound : List Lexeme → Option Expr → Prop where
  | none : ReadsBound [] none
  | some {ts : List Lexeme} {x : Expr} : Reads 0 ts x → ReadsBound ts (some x)

/-- One or more arguments. -/
inductive ReadsArgs : List Lexeme → List Expr → Prop where
  | one {ts : List Lexeme} {x : Expr} : Reads 0 ts x → ReadsArgs ts [x]
  | more {ts us : List Lexeme} {x : Expr} {rest : List Expr} :
    Reads 0 ts x → ReadsArgs us rest → ReadsArgs (ts ++ symbol "," :: us) (x :: rest)

end

theorem mem_binaryAt_iff {p : Nat} {s : String} {op : BinaryOp} :
    (s, op) ∈ binaryAt p ↔ s = op.symbol ∧ p = op.precedence := by
  constructor
  · intro h
    have hall : ∀ p < 6, ∀ entry ∈ binaryAt p, entry.1 = entry.2.symbol ∧ p = entry.2.precedence := by
      decide
    match p, h with
    | 0, h | 1, h | 2, h | 3, h | 4, h | 5, h => exact hall _ (by decide) _ h
    | _ + 6, h => cases h
  · rintro ⟨rfl, rfl⟩
    cases op <;> decide

theorem mem_unaryOps_iff {s : String} {op : UnaryOp} : (s, op) ∈ unaryOps ↔ s = op.symbol := by
  constructor
  · have hall : ∀ entry ∈ unaryOps, entry.1 = entry.2.symbol := by decide
    exact hall _
  · rintro rfl
    cases op <;> decide

mutual

/-- An expression without its parentheses and positions. -/
def Expr.skeleton : Expr → Expr
  | .ident name _ => .ident name noPos
  | .basicLit kind value _ => .basicLit kind value noPos
  | .compositeLit type? _ elts _ => .compositeLit (skeletonOpt type?) noPos (skeletonAll elts) noPos
  | .keyValue key _ value => .keyValue key.skeleton noPos value.skeleton
  | .binary x _ op y => .binary x.skeleton noPos op y.skeleton
  | .unary _ op x => .unary noPos op x.skeleton
  | .call callee _ args spread _ => .call callee.skeleton noPos (skeletonAll args) spread noPos
  | .selector x name _ => .selector x.skeleton name noPos
  | .index x _ index _ => .index x.skeleton noPos index.skeleton noPos
  | .slice x _ low? high? max? threeIndex _ =>
    .slice x.skeleton noPos (skeletonOpt low?) (skeletonOpt high?) (skeletonOpt max?) threeIndex noPos
  | .star _ x => .star noPos x.skeleton
  | .paren _ x _ => x.skeleton
  | .funcLit _ source => .funcLit noPos source
  | .ellipsis _ elt? => .ellipsis noPos (skeletonOpt elt?)
  | .arrayType _ len? elt => .arrayType noPos (skeletonOpt len?) elt.skeleton
  | .mapType _ key value => .mapType noPos key.skeleton value.skeleton

def skeletonOpt : Option Expr → Option Expr
  | none => none
  | some e => some e.skeleton

def skeletonAll : List Expr → List Expr
  | [] => []
  | e :: rest => e.skeleton :: skeletonAll rest

end

/-- Expressions of identifiers, operators, parentheses, calls, selectors, indices and slices. -/
inductive Expr.Plain (A : Alphabet) : Expr → Prop where
  | ident {name : String} (pos : Nat) : A.IsIdentifier name → Plain A (.ident name pos)
  | binary {x y : Expr} (opPos : Nat) (op : BinaryOp) :
    Plain A x → Plain A y → Plain A (.binary x opPos op y)
  | unary {x : Expr} (opPos : Nat) (op : UnaryOp) : Plain A x → Plain A (.unary opPos op x)
  | paren {x : Expr} (lparen rparen : Nat) : Plain A x → Plain A (.paren lparen x rparen)
  | call {f : Expr} {args : List Expr} {spread : Bool} (lparen rparen : Nat) : Plain A f →
    (∀ e ∈ args, Plain A e) → (spread → args ≠ []) → Plain A (.call f lparen args spread rparen)
  | selector {x : Expr} {name : String} (namePos : Nat) :
    Plain A x → A.IsIdentifier name → Plain A (.selector x name namePos)
  | index {x i : Expr} (lbrack rbrack : Nat) :
    Plain A x → Plain A i → Plain A (.index x lbrack i rbrack)
  | slice {x : Expr} {low? high? max? : Option Expr} {three : Bool} (lbrack rbrack : Nat) : Plain A x →
    (∀ e ∈ low?, Plain A e) → (∀ e ∈ high?, Plain A e) → (∀ e ∈ max?, Plain A e) →
      three = max?.isSome → (max?.isSome → high?.isSome) →
        Plain A (.slice x lbrack low? high? max? three rbrack)

end LiteralFill
