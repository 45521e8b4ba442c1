import LiteralFill.Expr.Basic
import LiteralFill.Json.Record

namespace LiteralFill

open Json (members? alternative? string? bool? nat? orDefault orNull)

def LitKind.tag : LitKind → String
  | .int => "int"
  | .float => "float"
  | .imag => "imag"
  | .char => "char"
  | .string => "string"

def LitKind.ofTag? : String → Option LitKind
  | "int" => some .int
  | "float" => some .float
  | "imag" => some .imag
  | "char" => some .char
  | "string" => some .string
  | _ => none

def BinaryOp.tag : BinaryOp → String
  | .add => "add"
  | .subtract => "subtract"
  | .multiply => "multiply"
  | .divide => "divide"
  | .modulus => "modulus"
  | .bitwiseAnd => "bitwise_and"
  | .bitwiseOr => "bitwise_or"
  | .bitwiseXor => "bitwise_xor"
  | .bitClear => "bit_clear"
  | .leftShift => "left_shift"
  | .rightShift => "right_shift"
  | .logicalAnd => "logical_and"
  | .logicalOr => "logical_or"
  | .equals => "equals"
  | .notEquals => "not_equals"
  | .lessThan => "less_than"
  | .lessThanEq => "less_than_eq"
  | .greaterThan => "greater_than"
  | .greaterThanEq => "greater_than_eq"

def BinaryOp.ofTag? : String → Option BinaryOp
  | "add" => some .add
  | "subtract" => some .subtract
  | "multiply" => some .multiply
  | "divide" => some .divide
  | "modulus" => some .modulus
  | "bitwise_and" => some .bitwiseAnd
  | "bitwise_or" => some .bitwiseOr
  | "bitwise_xor" => some .bitwiseXor
  | "bit_clear" => some .bitClear
  | "left_shift" => some .leftShift
  | "right_shift" => some .rightShift
  | "logical_and" => some .logicalAnd
  | "logical_or" => some .logicalOr
  | "equals" => some .equals
  | "not_equals" => some .notEquals
  | "less_than" => some .lessThan
  | "less_than_eq" => some .lessThanEq
  | "greater_than" => some .greaterThan
  | "greater_than_eq" => some .greaterThanEq
  | _ => none

def UnaryOp.tag : UnaryOp → String
  | .plus => "plus"
  | .negate => "negate"
  | .not => "not"
  | .bitComplement => "bit_complement"
  | .addressOf => "address_of"
  | .receive => "receive"

def UnaryOp.ofTag? : String → Option UnaryOp
  | "plus" => some .plus
  | "negate" => some .negate
  | "not" => some .not
  | "bit_complement" => some .bitComplement
  | "address_of" => some .addressOf
  | "receive" => some .receive
  | _ => none

def posJson (pos : Nat) : Json := .nat pos

def readPos? : Option Json → Option Nat := orDefault noPos (nat? 32)

mutual

def Expr.toJson : Expr → Json
  | .ident name pos => .obj [("ident", .obj [("name", .str name), ("pos", posJson pos)])]
  | .basicLit kind value pos =>
    .obj [("basic_lit", .obj [("kind", .str kind.tag), ("value", .str value), ("pos", posJson pos)])]
  | .compositeLit type? lbrace elts rbrace =>
    .obj [("composite_lit", .obj [("ty", optExprJson type?), ("lbrace", posJson lbrace),
      ("elts", .arr (exprsJson elts)), ("rbrace", posJson rbrace)])]
  | .keyValue key colon value =>
    .obj [("key_value", .obj [("key", key.toJson), ("colon", posJson colon), ("value", value.toJson)])]
  | .binary x opPos op y =>
    .obj [("binary", .obj [("x", x.toJson), ("op_pos", posJson opPos), ("op", .str op.tag),
      ("y", y.toJson)])]
  | .unary opPos op x =>
    .obj [("unary", .obj [("op_pos", posJson opPos), ("op", .str op.tag), ("x", x.toJson)])]
  | .call callee lparen args spread rparen =>
    .obj [("call", .obj [("fun", callee.toJson), ("lparen", posJson lparen),
      ("args", .arr (exprsJson args)), ("has_ellipsis", .bool spread), ("rparen", posJson rparen)])]
  | .selector x name namePos =>
    .obj [("selector", .obj [("x", x.toJson),
      ("sel", .obj [("name", .str name), ("pos", posJson namePos)])])]
  | .index x lbrack index rbrack =>
    .obj [("index", .obj [("x", x.toJson), ("lbrack", posJson lbrack), ("index", index.toJson),
      ("rbrack", posJson rbrack)])]
  | .slice x lbrack low? high? max? threeIndex rbrack =>
    .obj [("slice", .obj [("x", x.toJson), ("lbrack", posJson lbrack), ("low", optExprJson low?),
      ("high", optExprJson high?), ("max", optExprJson max?), ("slice3", .bool threeIndex),
      ("rbrack", posJson rbrack)])]
  | .star starPos x => .obj [("star", .obj [("star", posJson starPos), ("x", x.toJson)])]
  | .paren lparen x rparen =>
    .obj [("paren", .obj [("lparen", posJson lparen), ("x", x.toJson), ("rparen", posJson rparen)])]
  | .funcLit pos source => .obj [("func_lit", .obj [("func", posJson pos), ("source", .str source)])]
  | .ellipsis pos elt? => .obj [("ellipsis", .obj [("pos", posJson pos), ("elt", optExprJson elt?)])]
  | .arrayType lbrack len? elt =>
    .obj [("array_type", .obj [("lbrack", posJson lbrack), ("len", optExprJson len?),
      ("elt", elt.toJson)])]
  | .mapType pos key value =>
    .obj [("map_type", .obj [("map", posJson pos), ("key", key.toJson), ("value", value.toJson)])]

def optExprJson : Option Expr → Json
  | none => .null
  | some e => e.toJson

def exprsJson : List Expr → List Json
  | [] => []
  | e :: rest => e.toJson :: exprsJson rest

end

def Literal.toJson (lit : Literal) : Json :=
  .obj [("ty", optExprJson lit.type?), ("lbrace", posJson lit.lbrace),
    ("elts", .arr (exprsJson lit.elts)), ("rbrace", posJson lit.rbrace)]

/-- A name and its position. -/
def identOfJson? : Nat → Json → Option (String × Nat)
  | 0, _ => none
  | _ + 1, j => do
    let [name, pos] ← j.members? ["name", "pos"] | none
    return (← string? (← name), ← readPos? pos)

def basicLitOfJson? : Nat → Json → Option Expr
  | 0, _ => none
  | depth + 1, j => do
    let [kind, value, pos] ← j.members? ["kind", "value", "pos"] | none
    let kind ← (alternative? depth (← kind)).bind LitKind.ofTag?
    return .basicLit kind (← string? (← value)) (← readPos? pos)

def funcLitOfJson? : Nat → Json → Option Expr
  | 0, _ => none
  | _ + 1, j => do
    let [pos, source] ← j.members? ["func", "source"] | none
    return .funcLit (← readPos? pos) (← string? (← source))

mutual

/-- Reads an expression in which no more than `depth` arrays and objects are nested. -/
def Expr.ofJson? : Nat → Json → Option Expr
  | depth + 1, .obj [("ident", j)] => (identOfJson? depth j).map fun (name, pos) => .ident name pos
  | depth + 1, .obj [("basic_lit", j)] => basicLitOfJson? depth j
  | depth + 1, .obj [("composite_lit", j)] => (Literal.ofJson? depth j).map Literal.toExpr
  | depth + 1, .obj [("key_value", j)] => keyValueOfJson? depth j
  | depth + 1, .obj [("binary", j)] => binaryOfJson? depth j
  | depth + 1, .obj [("unary", j)] => unaryOfJson? depth j
  | depth + 1, .obj [("call", j)] => callOfJson? depth j
  | depth + 1, .obj [("selector", j)] => selectorOfJson? depth j
  | depth + 1, .obj [("index", j)] => indexOfJson? depth j
  | depth + 1, .obj [("slice", j)] => sliceOfJson? depth j
  | depth + 1, .obj [("star", j)] => starOfJson? depth j
  | depth + 1, .obj [("paren", j)] => parenOfJson? depth j
  | depth + 1, .obj [("func_lit", j)] => funcLitOfJson? depth j
  | depth + 1, .obj [("ellipsis", j)] => ellipsisOfJson? depth j
  | depth + 1, .obj [("array_type", j)] => arrayTypeOfJson? depth j
  | depth + 1, .obj [("map_type", j)] => mapTypeOfJson? depth j
  | _, _ => none

def exprsOfJson? : Nat → Json → Option (List Expr)
  | depth + 1, .arr items => items.mapM (Expr.ofJson? depth)
  | _, _ => none

def Literal.ofJson? : Nat → Json → Option Literal
  | 0, _ => none
  | depth + 1, j => do
    let [type, lbrace, elts, rbrace] ← j.members? ["ty", "lbrace", "elts", "rbrace"] | none
    let type? ← orNull (Expr.ofJson? depth) type
    return ⟨type?, ← readPos? lbrace, ← orDefault [] (exprsOfJson? depth) elts, ← readPos? rbrace⟩

def keyValueOfJson? : Nat → Json → Option Expr
  | 0, _ => none
  | depth + 1, j => do
    let [key, colon, value] ← j.members? ["key", "colon", "value"] | none
    let key ← Expr.ofJson? depth (← key)
    return .keyValue key (← readPos? colon) (← Expr.ofJson? depth (← value))

def binaryOfJson? : Nat → Json → Option Expr
  | 0, _ => none
  | depth + 1, j => do
    let [x, opPos, op, y] ← j.members? ["x", "op_pos", "op", "y"] | none
    let op ← (alternative? depth (← op)).bind BinaryOp.ofTag?
    let x ← Expr.ofJson? depth (← x)
    return .binary x (← readPos? opPos) op (← Expr.ofJson? depth (← y))

def unaryOfJson? : Nat → Json → Option Expr
  | 0, _ => none
  | depth + 1, j => do
    let [opPos, op, x] ← j.members? ["op_pos", "op", "x"] | none
    let op ← (alternative? depth (← op)).bind UnaryOp.ofTag?
    return .unary (← readPos? opPos) op (← Expr.ofJson? depth (← x))

def callOfJson? : Nat → Json → Option Expr
  | 0, _ => none
  | depth + 1, j => do
    let [callee, lparen, args, spread, rparen] ←
      j.members? ["fun", "lparen", "args", "has_ellipsis", "rparen"] | none
    let callee ← Expr.ofJson? depth (← callee)
    let args ← orDefault [] (exprsOfJson? depth) args
    return .call callee (← readPos? lparen) args (← orDefault false bool? spread) (← readPos? rparen)

def selectorOfJson? : Nat → Json → Option Expr
  | 0, _ => none
  | depth + 1, j => do
    let [x, sel] ← j.members? ["x", "sel"] | none
    let (name, namePos) ← identOfJson? depth (← sel)
    return .selector (← Expr.ofJson? depth (← x)) name namePos

def indexOfJson? : Nat → Json → Option Expr
  | 0, _ => none
  | depth + 1, j => do
    let [x, lbrack, index, rbrack] ← j.members? ["x", "lbrack", "index", "rbrack"] | none
    let x ← Expr.ofJson? depth (← x)
    return .index x (← readPos? lbrack) (← Expr.ofJson? depth (← index)) (← readPos? rbrack)

def sliceOfJson? : Nat → Json → Option Expr
  | 0, _ => none
  | depth + 1, j => do
    let [x, lbrack, low, high, max, slice3, rbrack] ←
      j.members? ["x", "lbrack", "low", "high", "max", "slice3", "rbrack"] | none
    let x ← Expr.ofJson? depth (← x)
    let low? ← orNull (Expr.ofJson? depth) low
    let high? ← orNull (Expr.ofJson? depth) high
    let max? ← orNull (Expr.ofJson? depth) max
    return .slice x (← readPos? lbrack) low? high? max? (← orDefault false bool? slice3)
      (← readPos? rbrack)

def starOfJson? : Nat → Json → Option Expr
  | 0, _ => none
  | depth + 1, j => do
    let [starPos, x] ← j.members? ["star", "x"] | none
    return .star (← readPos? starPos) (← Expr.ofJson? depth (← x))

def parenOfJson? : Nat → Json → Option Expr
  | 0, _ => none
  | depth + 1, j => do
    let [lparen, x, rparen] ← j.members? ["lparen", "x", "rparen"] | none
    return .paren (← readPos? lparen) (← Expr.ofJson? depth (← x)) (← readPos? rparen)

def ellipsisOfJson? : Nat → Json → Option Expr
  | 0, _ => none
  | depth + 1, j => do
    let [pos, elt] ← j.members? ["pos", "elt"] | none
    return .ellipsis (← readPos? pos) (← orNull (Expr.ofJson? depth) elt)

def arrayTypeOfJson? : Nat → Json → Option Expr
  | 0, _ => none
  | depth + 1, j => do
    let [lbrack, len, elt] ← j.members? ["lbrack", "len", "elt"] | none
    let len? ← orNull (Expr.ofJson? depth) len
    return .arrayType (← readPos? lbrack) len? (← Expr.ofJson? depth (← elt))

def mapTypeOfJson? : Nat → Json → Option Expr
  | 0, _ => none
  | depth + 1, j => do
    let [pos, key, value] ← j.members? ["map", "key", "value"] | none
    return .mapType (← readPos? pos) (← Expr.ofJson? depth (← key)) (← Expr.ofJson? depth (← value))

end

end LiteralFill
