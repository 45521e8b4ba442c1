import LiteralFill.Expr.Basic
import LiteralFill.Fill.Error

namespace LiteralFill

/-- What the user wrote into a struct literal: values by field name, in the order written. -/
abbrev Entries := List (String × Expr)

namespace Entries

/-- The value of a field; of several, the last one counts. -/
def value? (entries : Entries) (field : String) : Option Expr :=
  ((entries.filter (·.1 = field)).getLast?).map (·.2)

def remove (entries : Entries) (field : String) : Entries :=
  entries.filter (·.1 ≠ field)

theorem value?_remove_self (entries : Entries) (field : String) :
    (entries.remove field).value? field = none := by
  simp [value?, remove, List.filter_filter]

theorem value?_remove_of_ne (entries : Entries) {field other : String} (h : other ≠ field) :
    (entries.remove field).value? other = entries.value? other := by
  have hand : ∀ e : String × Expr,
      (decide (e.1 = other) && decide (e.1 ≠ field)) = decide (e.1 = other) := by
    intro e
    by_cases he : e.1 = other <;> simp [he, h]
  simp only [value?, remove, List.filter_filter, hand]

/-- The element number `i` of a literal. One without a key belongs to the field of that number. -/
def ofElement (fields : List Field) (i : Nat) : Expr → Except FillError (String × Expr)
  | .keyValue (.ident name _) _ value => .ok (name, value)
  | .keyValue _ _ _ => .error .nonIdentifierKey
  | value =>
    match fields[i]? with
    | some f => .ok (f.name, value)
    | none => .error (.tooManyValues fields.length)

def ofElements (fields : List Field) (elts : List Expr) : Except FillError Entries :=
  elts.zipIdx.mapM fun (e, i) => ofElement fields i e

end Entries

end LiteralFill
