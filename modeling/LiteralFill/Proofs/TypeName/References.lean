import LiteralFill.Proofs.TypeTable.References
import LiteralFill.TypeName

namespace LiteralFill

variable {v : Viewpoint} {decl : Nat}

theorem Viewpoint.eq_of_spellDecl_eq_dangling {start : Nat}
    (h : v.spellDecl start = .error (.dangling decl)) : start = decl ∧ v.table.size ≤ decl := by
  unfold spellDecl at h
  split at h
  · rename_i d _
    unfold TypeDecl.spell at h
    split at h
    · cases h
    · split at h
      · cases h
      · split at h <;> cases h
  · rename_i hd
    cases h
    refine ⟨rfl, not_lt.1 fun hlt => ?_⟩
    have := (v.table.isSome_get?_iff decl).2 hlt
    rw [hd] at this
    cases this

theorem hiddenField?_ne_dangling {fields : List Field} :
    ((hiddenField? v fields).elim (.ok ()) .error : Except SpellError Unit) ≠
      .error (.dangling decl) := by
  unfold hiddenField?
  cases fields.find? (!·.visibleFrom v.current) <;> nofun

mutual

/-- A type that cannot be written for a missing declaration refers to that one. -/
theorem Ty.mem_refs_of_spell (ty : Ty) (h : ty.spell v = .error (.dangling decl)) :
    decl ∈ ty.refs ∧ v.table.size ≤ decl := by
  cases ty with
  | basic kind => cases h
  | chan dir elem =>
    rw [Ty.spell] at h
    exact elem.mem_refs_of_spell (bind_pure_eq_error h)
  | func signature =>
    rw [Ty.spell] at h
    exact signature.mem_refs_of_spell (bind_pure_eq_error h)
  | slice elem =>
    rw [Ty.spell] at h
    exact elem.mem_refs_of_spell (bind_pure_eq_error h)
  | interface methods =>
    rw [Ty.spell] at h
    exact mem_methodRefs_of_spell methods (bind_pure_eq_error h)
  | array len elem =>
    rw [Ty.spell] at h
    exact elem.mem_refs_of_spell (bind_pure_eq_error h)
  | map key value =>
    rw [Ty.spell] at h
    rcases bind_eq_error h with h | ⟨k, -, h⟩
    · exact (key.mem_refs_of_spell h).imp_left fun h => List.mem_append_left _ h
    · exact (value.mem_refs_of_spell (bind_pure_eq_error h)).imp_left fun h =>
        List.mem_append_right _ h
  | struct fields =>
    rw [Ty.spell] at h
    rcases bind_eq_error h with h | ⟨_, -, h⟩
    · exact absurd h hiddenField?_ne_dangling
    · exact mem_fieldRefs_of_spell fields (bind_pure_eq_error h)
  | named start =>
    obtain ⟨rfl, hsize⟩ := v.eq_of_spellDecl_eq_dangling h
    exact ⟨List.mem_singleton_self _, hsize⟩
  | pointer elem =>
    rw [Ty.spell] at h
    exact elem.mem_refs_of_spell (bind_pure_eq_error h)
  | tuple elems =>
    rw [Ty.spell] at h
    exact mem_tyRefs_of_spell elems (bind_pure_eq_error h)
termination_by structural ty

theorem Signature.mem_refs_of_spell (signature : Signature)
    (h : signature.spell v = .error (.dangling decl)) :
    decl ∈ signature.refs ∧ v.table.size ≤ decl := by
  cases signature with
  | mk params results variadic =>
    rw [Signature.spell] at h
    rcases bind_eq_error h with h | ⟨ps, -, h⟩
    · exact (mem_tyRefs_of_spellParams params h).imp_left fun h => List.mem_append_left _ h
    · exact (mem_tyRefs_of_spell results (bind_pure_eq_error h)).imp_left fun h =>
        List.mem_append_right _ h
termination_by structural signature

theorem mem_tyRefs_of_spell (tys : List Ty) (h : spellTypes v tys = .error (.dangling decl)) :
    decl ∈ tyRefs tys ∧ v.table.size ≤ decl := by
  cases tys with
  | nil => cases h
  | cons ty rest =>
    rw [spellTypes] at h
    rcases bind_eq_error h with h | ⟨text, -, h⟩
    · exact (ty.mem_refs_of_spell h).imp_left fun h => List.mem_append_left _ h
    · exact (mem_tyRefs_of_spell rest (bind_pure_eq_error h)).imp_left fun h =>
        List.mem_append_right _ h
termination_by structural tys

theorem mem_tyRefs_of_spellParams {variadic : Bool} (tys : List Ty)
    (h : spellParams v variadic tys = .error (.dangling decl)) :
    decl ∈ tyRefs tys ∧ v.table.size ≤ decl := by
  cases tys with
  | nil => cases h
  | cons ty rest =>
    rw [spellParams.eq_def] at h
    split at h
    · rename_i heq
      cases heq
    · rename_i elem heq
      obtain ⟨hty, -⟩ := List.cons.inj heq
      have hspell : ty.spell v = .error (.dangling decl) := by
        rw [hty, Ty.spell, bind_pure_eq_error h]
        rfl
      exact (ty.mem_refs_of_spell hspell).imp_left fun h => List.mem_append_left _ h
    · rename_i heq
      cases heq
      rcases bind_eq_error h with h | ⟨text, -, h⟩
      · exact (ty.mem_refs_of_spell h).imp_left fun h => List.mem_append_left _ h
      · exact (mem_tyRefs_of_spellParams rest (bind_pure_eq_error h)).imp_left fun h =>
          List.mem_append_right _ h
termination_by structural tys

theorem mem_methodRefs_of_spell (methods : List Method)
    (h : spellMethods v methods = .error (.dangling decl)) :
    decl ∈ methodRefs methods ∧ v.table.size ≤ decl := by
  cases methods with
  | nil => cases h
  | cons m rest =>
    cases m with
    | mk name signature =>
      rw [spellMethods] at h
      rcases bind_eq_error h with h | ⟨text, -, h⟩
      · exact (signature.mem_refs_of_spell h).imp_left fun h => List.mem_append_left _ h
      · exact (mem_methodRefs_of_spell rest (bind_pure_eq_error h)).imp_left fun h =>
          List.mem_append_right _ h
termination_by structural methods

theorem mem_fieldRefs_of_spell (fields : List Field)
    (h : spellFields v fields = .error (.dangling decl)) :
    decl ∈ fieldRefs fields ∧ v.table.size ≤ decl := by
  cases fields with
  | nil => cases h
  | cons f rest =>
    cases f with
    | mk name exported embedded scope ty =>
      rw [spellFields] at h
      rcases bind_eq_error h with h | ⟨text, -, h⟩
      · exact (ty.mem_refs_of_spell h).imp_left fun h => List.mem_append_left _ h
      · exact (mem_fieldRefs_of_spell rest (bind_pure_eq_error h)).imp_left fun h =>
          List.mem_append_right _ h
termination_by structural fields

end

theorem TypeTable.HasRefs.spell_ne_dangling {ty : Ty} (h : v.table.HasRefs ty) :
    ty.spell v ≠ .error (.dangling decl) := by
  intro hs
  obtain ⟨hmem, hsize⟩ := ty.mem_refs_of_spell hs
  have := h decl hmem
  omega

end LiteralFill
