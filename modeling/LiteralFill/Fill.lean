import LiteralFill.Fill.Zero

namespace LiteralFill

/-- A literal filled in and laid out over `lines` lines. -/
structure Filled where
  expr : Expr
  lines : Nat
  omitted : List Omission

/-- A literal of type `ty` with a value for every field that may be named here, and the values of
`lit` where it has one. The table is validated first; `depth` bounds the descent into the types. -/
def fill (depth : Nat) (v : Viewpoint) (lit : Literal) (ty : Ty) (omitType : Bool) :
    Except FillError Filled := do
  v.table.validate.mapError .invalidTypes
  (v.table.validateType ty).mapError .invalidTypes
  match ← (v.table.structFields? ty).mapError .fault with
  | some fields =>
    let entries ← Entries.ofElements fields lit.elts
    let (outcome, draft) := zero v depth ⟨none, omitType, false⟩ (.root ty) (.start entries)
    return ⟨← outcome, draft.lines, draft.omitted⟩
  | none => v.describe ty >>= fun name => .error (.notAStruct name)

/-- How far down the tool follows types before it gives up. -/
def descentLimit : Nat := 65536

end LiteralFill
