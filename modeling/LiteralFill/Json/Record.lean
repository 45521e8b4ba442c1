import LiteralFill.Json.Basic

namespace LiteralFill.Json

/-- The members of a record by name, in the order of `names`: those of an object, where none of the
names comes twice and other members do not matter, or the items of an array from its start. -/
def members? (names : List String) : Json → Option (List (Option Json))
  | .obj members =>
    if names.any fun name => 1 < (members.filter (·.1 = name)).length then none
    else some (names.map fun name => List.lookup name members)
  | .arr items =>
    if names.length < items.length then none
    else some ((items.map some) ++ List.replicate (names.length - items.length) none)
  | _ => none

/-- The name of an alternative without content, written as a string or as the name of a null. -/
def alternative? (depth : Nat) : Json → Option String
  | .str name => some name
  | .obj [(name, .null)] => if depth = 0 then none else some name
  | _ => none

/-- The name and the content of an alternative that has one. -/
def tagged? : Json → Option (String × Json)
  | .obj [(name, content)] => some (name, content)
  | _ => none

def string? : Json → Option String
  | .str s => some s
  | _ => none

def bool? : Json → Option Bool
  | .bool b => some b
  | _ => none

/-- A natural number that fits `bits` bits. -/
def nat? (bits : Nat) : Json → Option Nat
  | .nat n => if n < Nat.pow 2 bits then some n else none
  | _ => none

/-- A value that may be absent, for which `default` stands then. -/
def orDefault {α : Type} (default : α) (read : Json → Option α) : Option Json → Option α
  | none => some default
  | some j => read j

/-- A value that may be absent or null. -/
def orNull {α : Type} (read : Json → Option α) : Option Json → Option (Option α)
  | none | some .null => some none
  | some j => (read j).map some

/-- The items of an array, each read by `read`. -/
def list? {α : Type} (read : Nat → Json → Option α) : Nat → Json → Option (List α)
  | depth + 1, .arr items => items.mapM (read depth)
  | _, _ => none

def ofOption {α : Type} (write : α → Json) : Option α → Json
  | none => .null
  | some a => write a

/-- The deepest nesting of arrays and objects that is read. -/
def maxDepth : Nat := 127

end LiteralFill.Json
