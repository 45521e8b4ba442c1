import LiteralFill.Expr.Basic

namespace LiteralFill

/-- What the operators of an expression, down to its parentheses, mean for the blanks around them. -/
structure Mix where
  hasSum : Bool
  hasProduct : Bool
  /-- The highest precedence whose operators would run into the operand after them. -/
  clash : Nat
  deriving DecidableEq, Repr

def Mix.join (a b : Mix) : Mix :=
  ⟨a.hasSum || b.hasSum, a.hasProduct || b.hasProduct, max a.clash b.clash⟩

def Expr.binaryOp? : Expr → Option BinaryOp
  | .binary _ _ op _ => some op
  | _ => none

/-- The precedence at which a binary operator and the operator that opens its right operand must be
kept apart, zero for none. -/
def clashOf (op : BinaryOp) : Expr → Nat
  | .star _ _ => if op = .divide then 5 else 0
  | .unary _ sign _ =>
    match op, sign with
    | .bitwiseAnd, .addressOf | .bitwiseAnd, .bitComplement => 5
    | .add, .plus | .subtract, .negate => 4
    | _, _ => 0
  | _ => 0

/-- Operands that will stand in parentheses have no part in it. -/
def Expr.mix : Expr → Mix
  | .binary x _ op y =>
    let left := if x.binaryOp?.any (op.precedence ≤ ·.precedence) then x.mix else ⟨false, false, 0⟩
    let right := if y.binaryOp?.any (op.precedence < ·.precedence) then y.mix else ⟨false, false, 0⟩
    Mix.join (Mix.join ⟨op.precedence == 4, op.precedence == 5, clashOf op y⟩ left) right
  | _ => ⟨false, false, 0⟩

/-- Operators of a precedence below the cutoff get blanks. -/
def Mix.cutoff (m : Mix) (depth : Nat) : Nat :=
  if 0 < m.clash then m.clash + 1
  else if m.hasSum && m.hasProduct then (if depth = 1 then 5 else 4)
  else if depth = 1 then 6 else 4

/-- A left operand of the same precedence continues its parent and is no deeper. -/
def Expr.depthStep (prec : Nat) (x : Expr) : Nat :=
  if x.binaryOp?.any (·.precedence = prec) then 0 else 1

def reduceDepth (depth : Nat) : Nat := max (depth - 1) 1

/-- Whether `next`, written right after an operator, would read as part of it. -/
def mayCombine (op : String) (next : Option Char) : Bool :=
  match op, next with
  | "+", some '+' | "-", some '-' | "/", some '*' => true
  | "<", some '-' | "<", some '<' => true
  | "&", some '&' | "&", some '^' => true
  | _, _ => false

/-- An operator and its right operand, apart where they would read as one token. -/
def glue (op right : String) : String :=
  op ++ (if mayCombine op right.toList.head? then " " else "") ++ right

end LiteralFill
