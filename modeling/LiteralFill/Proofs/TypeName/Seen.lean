import LiteralFill.Proofs.TypeName.Agree
import LiteralFill.Proofs.TypeTable.Seen

namespace LiteralFill

/-- The view with its table as the current package sees it. -/
def Viewpoint.seen (v : Viewpoint) : Viewpoint := { v with table := v.table.seenFrom v.current }

@[simp] theorem Viewpoint.current_seen (v : Viewpoint) : v.seen.current = v.current := rfl

variable {v : Viewpoint}

theorem Viewpoint.spellDecl_seen (decl : Nat) : v.seen.spellDecl decl = v.spellDecl decl := by
  simp only [spellDecl, seen, TypeTable.get?_seenFrom]
  cases v.table.get? decl <;> rfl

/-- A field that may not be named is found before any type is looked at. -/
theorem hiddenField?_seen (fields : List Field) :
    hiddenField? v.seen (fieldsSeenFrom v.current fields) = hiddenField? v fields := by
  rw [hiddenField?, hiddenField?, fieldsSeenFrom_eq_map, List.find?_map, Option.map_map]
  rfl

theorem visibleFrom_of_hiddenField?_eq_none {fields : List Field} (h : hiddenField? v fields = none) :
    ∀ f ∈ fields, f.visibleFrom v.current = true := by
  rw [hiddenField?, Option.map_eq_none_iff, List.find?_eq_none] at h
  simpa using h

theorem Ty.isReceiveOnly_seenFrom (scope : Scope) (ty : Ty) :
    (ty.seenFrom scope).isReceiveOnly = ty.isReceiveOnly := by
  cases ty with
  | chan dir _ => cases dir <;> rfl
  | _ => rfl

mutual

/-- The spelling of a type does not tell the types of the fields that may not be named. -/
theorem Ty.spell_seen (ty : Ty) : (ty.seenFrom v.current).spell v.seen = ty.spell v := by
  cases ty with
  | basic kind => rfl
  | chan dir elem =>
    simp only [Ty.seenFrom, Ty.spell, elem.spell_seen, spellChan, elem.isReceiveOnly_seenFrom]
  | func signature => simp only [Ty.seenFrom, Ty.spell, signature.spell_seen]
  | slice elem => simp only [Ty.seenFrom, Ty.spell, elem.spell_seen]
  | interface methods => simp only [Ty.seenFrom, Ty.spell, spellMethods_seen methods]
  | array len elem => simp only [Ty.seenFrom, Ty.spell, elem.spell_seen]
  | map key value => simp only [Ty.seenFrom, Ty.spell, key.spell_seen, value.spell_seen]
  | struct fields =>
    simp only [Ty.seenFrom, Ty.spell, hiddenField?_seen]
    cases hhidden : hiddenField? v fields with
    | some e => rfl
    | none => rw [spellFields_seen fields (visibleFrom_of_hiddenField?_eq_none hhidden)]
  | named decl => exact Viewpoint.spellDecl_seen decl
  | pointer elem => simp only [Ty.seenFrom, Ty.spell, elem.spell_seen]
  | tuple elems => simp only [Ty.seenFrom, Ty.spell, spellTypes_seen elems]
termination_by structural ty

theorem Signature.spell_seen (signature : Signature) :
    (signature.seenFrom v.current).spell v.seen = signature.spell v := by
  cases signature with
  | mk params results variadic =>
    simp only [Signature.seenFrom, Signature.spell, spellParams_seen params, spellTypes_seen results]
termination_by structural signature

theorem spellTypes_seen (tys : List Ty) :
    spellTypes v.seen (typesSeenFrom v.current tys) = spellTypes v tys := by
  cases tys with
  | nil => rfl
  | cons ty rest => simp only [typesSeenFrom, spellTypes, ty.spell_seen, spellTypes_seen rest]
termination_by structural tys

theorem spellParams_seen {variadic : Bool} (tys : List Ty) :
    spellParams v.seen variadic (typesSeenFrom v.current tys) = spellParams v variadic tys := by
  cases tys with
  | nil => rfl
  | cons ty rest =>
    have hty : (ty.seenFrom v.current).spell v.seen = ty.spell v := ty.spell_seen
    have hrest : spellParams v.seen variadic (typesSeenFrom v.current rest) =
        spellParams v variadic rest := spellParams_seen rest
    cases rest with
    | nil =>
      cases ty with
      | slice elem => simp only [typesSeenFrom, Ty.seenFrom, spellParams, elem.spell_seen]
      | _ => exact congrArg (· >>= fun text => return [text]) hty
    | cons ty' more =>
      rw [typesSeenFrom] at hrest ⊢
      rw [typesSeenFrom, spellParams_cons_cons, hty, hrest, spellParams_cons_cons]
termination_by structural tys

theorem spellMethods_seen (methods : List Method) :
    spellMethods v.seen (methodsSeenFrom v.current methods) = spellMethods v methods := by
  cases methods with
  | nil => rfl
  | cons m rest =>
    cases m with
    | mk name signature =>
      simp only [methodsSeenFrom, spellMethods, signature.spell_seen, spellMethods_seen rest]
termination_by structural methods

theorem spellFields_seen (fields : List Field) (h : ∀ f ∈ fields, f.visibleFrom v.current = true) :
    spellFields v.seen (fieldsSeenFrom v.current fields) = spellFields v fields := by
  cases fields with
  | nil => rfl
  | cons f rest =>
    cases f with
    | mk name exported embedded home ty =>
      obtain ⟨hf, hrest⟩ := List.forall_mem_cons.1 h
      simp only [fieldsSeenFrom, spellFields, hf, ↓reduceIte, ty.spell_seen,
        spellFields_seen rest hrest]
termination_by structural fields

end

end LiteralFill
