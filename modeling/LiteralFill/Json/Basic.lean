namespace LiteralFill

/-- A JSON document. Members keep their order and may repeat a name; a number that is not written
as a natural number keeps its spelling. -/
inductive Json where
  | null
  | bool (value : Bool)
  | nat (value : Nat)
  | number (spelling : String)
  | str (value : String)
  /-- A string with half a surrogate pair in it, or an object with such a name: well formed, but no
  text. It does no harm where it is not looked at. -/
  | garbled
  | arr (items : List Json)
  | obj (members : List (String × Json))
  deriving Repr

instance : Inhabited Json := ⟨.null⟩

end LiteralFill
