import LiteralFill.Fill.Zero
import LiteralFill.Proofs.Typing.Operand

namespace LiteralFill

/-- The type that a literal of the style has if its type is written. -/
def Style.literalType (style : Style) (ty : Ty) : Ty :=
  if style.addressed then .pointer (style.decl?.elim ty .named) else style.decl?.elim ty .named

theorem Style.literalType_of_addressed {style : Style} (h : style.addressed = true) (ty : Ty) :
    style.literalType ty = .pointer (style.decl?.elim ty .named) :=
  if_pos h

theorem Style.literalType_of_not_addressed {style : Style} (h : style.addressed = false) (ty : Ty) :
    style.literalType ty = style.decl?.elim ty .named :=
  if_neg (h ▸ Bool.false_ne_true)

/-- How a literal of type `ty` is written at a place declared of another type: by the name the place has
for a struct, and by its address behind a pointer to one. -/
structure Style.Writes (t : TypeTable) (style : Style) (ty declared : Ty) : Prop where
  named : ∀ decl, style.decl? = some decl → ty.isStruct = true ∧ t.underlying (.named decl) = .ok ty
  addressed : style.addressed = true → ∃ target, t.underlying ty = .ok target ∧ target.isStruct = true
  declared : declared = style.literalType ty ∨ t.underlying declared = .ok (style.literalType ty)

namespace Style.Writes

variable {t : TypeTable} {style : Style} {ty declared target : Ty}

theorem refl (elided : Bool) (ty : Ty) : (⟨none, elided, false⟩ : Style).Writes t ty ty :=
  ⟨nofun, nofun, .inl rfl⟩

theorem decl?_eq_none (h : style.Writes t ty declared) (hty : ty.isStruct = false) :
    style.decl? = none := by
  cases hd : style.decl? with
  | none => rfl
  | some decl =>
    have := (h.named decl hd).1
    rw [hty] at this
    cases this

theorem addressed_eq_false (h : style.Writes t ty declared) (ht : t.underlying ty = .ok target)
    (hstruct : target.isStruct = false) : style.addressed = false := by
  by_contra haddressed
  obtain ⟨target', ht', hstruct'⟩ := h.addressed (by simpa using haddressed)
  cases ht.symm.trans ht'
  rw [hstruct] at hstruct'
  cases hstruct'

/-- A type that is no struct is written as it is. -/
theorem literalType_eq (h : style.Writes t ty declared) (ht : t.underlying ty = .ok target)
    (hstruct : target.isStruct = false) : style.literalType ty = ty := by
  have haddressed := h.addressed_eq_false ht hstruct
  have hty : ty.isStruct = false := by
    cases ty with
    | struct fields => cases ht; exact hstruct
    | _ => rfl
  rw [literalType_of_not_addressed haddressed, h.decl?_eq_none hty]
  rfl

theorem underlying_name (h : style.Writes t ty declared) (hn : ty.isNamed = false) :
    t.underlying (style.decl?.elim ty .named) = .ok ty := by
  cases hd : style.decl? with
  | none => exact TypeTable.underlying_of_not_named hn
  | some decl => exact (h.named decl hd).2

/-- A place takes literals of what its type stands for. -/
theorem underlying_declared (h : style.Writes t ty declared) (hn : ty.isNamed = false)
    (haddressed : style.addressed = false) : t.underlying declared = .ok ty := by
  rcases h.declared with hd | hd
  · rw [hd, literalType_of_not_addressed haddressed]
    exact h.underlying_name hn
  · rw [literalType_of_not_addressed haddressed] at hd
    cases hdecl : style.decl? with
    | none =>
      rw [hdecl] at hd
      exact hd
    | some decl =>
      rw [hdecl] at hd
      cases TypeTable.isNamed_of_underlying hd

theorem underlying_declared_of_not_struct (h : style.Writes t ty declared) (hn : ty.isNamed = false)
    (hstruct : ty.isStruct = false) : t.underlying declared = .ok ty :=
  h.underlying_declared hn (h.addressed_eq_false (TypeTable.underlying_of_not_named hn) hstruct)

theorem underlying_declared_of_addressed (h : style.Writes t ty declared)
    (haddressed : style.addressed = true) :
    t.underlying declared = .ok (.pointer (style.decl?.elim ty .named)) := by
  rcases h.declared with hd | hd
  · rw [hd, literalType_of_addressed haddressed]
    exact TypeTable.underlying_of_not_named rfl
  · rwa [literalType_of_addressed haddressed] at hd

/-- A literal whose type is written may be assigned at its place. -/
theorem assignableTo (h : style.Writes t ty declared) (hname : ty.hasName = false) :
    (Operand.typed (style.literalType ty)).AssignableTo t declared := by
  rcases h.declared with hd | hd
  · rw [hd]
    exact .same
  · have hnamed := TypeTable.isNamed_of_underlying hd
    refine .underlying (TypeTable.underlying_of_not_named hnamed) hd (.inl ?_)
    by_cases haddressed : style.addressed = true
    · rw [literalType_of_addressed haddressed]
      rfl
    · rw [literalType_of_not_addressed (by simpa using haddressed)] at hnamed ⊢
      cases hdecl : style.decl? with
      | none => exact hname
      | some decl => rw [hdecl] at hnamed; cases hnamed

/-- No handle has a place for literals, so there an operand that may be assigned suits. -/
theorem suits (h : style.Writes t ty declared) (hname : ty.hasName = false) {o : Operand}
    (ho : o.AssignableTo t declared) : o.Suits t declared := by
  by_cases haddressed : style.addressed = true
  · exact ho.suits (h.underlying_declared_of_addressed haddressed) rfl
  · have ht := h.underlying_declared (Ty.isNamed_of_hasName hname) (by simpa using haddressed)
    exact ho.suits ht (Ty.isConverted_of_hasName hname)

/-- Following a name keeps the place; the name is remembered for a struct. -/
theorem of_named {decl : Nat} (h : style.Writes t (.named decl) declared)
    (ht : t.underlying (.named decl) = .ok target) :
    { style with decl? := if target.isStruct then some decl else none }.Writes t target declared := by
  have htarget : t.underlying target = .ok target :=
    TypeTable.underlying_of_not_named (TypeTable.isNamed_of_underlying ht)
  by_cases hstruct : target.isStruct = true
  · rw [if_pos hstruct]
    refine ⟨fun d hd => ?_, fun _ => ⟨target, htarget, hstruct⟩, ?_⟩
    · cases hd
      exact ⟨hstruct, ht⟩
    · have hdecl := h.decl?_eq_none rfl
      have := h.declared
      unfold literalType at this ⊢
      rwa [hdecl] at this
  · have hstruct : target.isStruct = false := by simpa using hstruct
    rw [if_neg (by simp [hstruct])]
    have haddressed := h.addressed_eq_false ht hstruct
    refine ⟨nofun, fun h => absurd (haddressed.symm.trans h) Bool.false_ne_true, .inr ?_⟩
    have hplain : ({ style with decl? := none } : Style).addressed = false := haddressed
    rw [literalType_of_not_addressed hplain]
    change t.underlying declared = .ok target
    rcases h.declared with hd | hd
    · rwa [hd, h.literalType_eq ht hstruct]
    · rw [h.literalType_eq ht hstruct] at hd
      cases TypeTable.isNamed_of_underlying hd

/-- Following a pointer to a struct keeps the place, and the literal is written by its address. -/
theorem of_pointer {elem : Ty} (h : style.Writes t (.pointer elem) declared)
    (ht : t.underlying elem = .ok target) (hstruct : target.isStruct = true) :
    { style with addressed := true }.Writes t elem declared := by
  have hdecl := h.decl?_eq_none rfl
  have hpointer : t.underlying (.pointer elem) = .ok (.pointer elem) :=
    TypeTable.underlying_of_not_named rfl
  refine ⟨fun decl hd => ?_, fun _ => ⟨target, ht, hstruct⟩, ?_⟩
  · rw [hdecl] at hd
    cases hd
  · rw [literalType_of_addressed rfl, hdecl]
    have hdeclared := h.declared
    rwa [h.literalType_eq hpointer rfl] at hdeclared

end Style.Writes

end LiteralFill
