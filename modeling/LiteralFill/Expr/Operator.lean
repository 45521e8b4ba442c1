namespace LiteralFill

inductive BinaryOp where
  | add | subtract | multiply | divide | modulus
  | bitwiseAnd | bitwiseOr | bitwiseXor | bitClear | leftShift | rightShift
  | logicalAnd | logicalOr
  | equals | notEquals | lessThan | lessThanEq | greaterThan | greaterThanEq
  deriving DecidableEq, Repr

inductive UnaryOp where
  | plus | negate | not | bitComplement | addressOf | receive
  deriving DecidableEq, Repr

/-- Binding strength, from 1 for `||` to 5 for products and shifts. -/
def BinaryOp.precedence : BinaryOp → Nat
  | .logicalOr => 1
  | .logicalAnd => 2
  | .equals | .notEquals | .lessThan | .lessThanEq | .greaterThan | .greaterThanEq => 3
  | .add | .subtract | .bitwiseOr | .bitwiseXor => 4
  | .multiply | .divide | .modulus | .leftShift | .rightShift | .bitwiseAnd | .bitClear => 5

def BinaryOp.symbol : BinaryOp → String
  | .add => "+"
  | .subtract => "-"
  | .multiply => "*"
  | .divide => "/"
  | .modulus => "%"
  | .bitwiseAnd => "&"
  | .bitwiseOr => "|"
  | .bitwiseXor => "^"
  | .bitClear => "&^"
  | .leftShift => "<<"
  | .rightShift => ">>"
  | .logicalAnd => "&&"
  | .logicalOr => "||"
  | .equals => "=="
  | .notEquals => "!="
  | .lessThan => "<"
  | .lessThanEq => "<="
  | .greaterThan => ">"
  | .greaterThanEq => ">="

def UnaryOp.symbol : UnaryOp → String
  | .plus => "+"
  | .negate => "-"
  | .not => "!"
  | .bitComplement => "^"
  | .addressOf => "&"
  | .receive => "<-"

end LiteralFill
