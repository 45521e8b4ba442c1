import LiteralFill.Proofs.Fill.Bare

namespace LiteralFill

theorem Entries.value?_of_value?_remove {entries : Entries} {field other : String} {value : Expr}
    (h : (entries.remove field).value? other = some value) : entries.value? other = some value := by
  by_cases heq : other = field
  · rw [heq, value?_remove_self] at h
    cases h
  · rwa [value?_remove_of_ne entries heq] at h

/-- The entries as the elements of a literal. -/
def Entries.toElements (entries : Entries) : List Expr := entries.map fun e => .entry e.1 e.2

/-- What filling gathers for the fields from number `i` on. A field takes over what the user wrote
under its name, else it has a value of its own, is left out for what it would name, or may not be named
itself. -/
inductive Gathered (v : Viewpoint) (valueOf : Nat → Field → Attempt Expr) :
    Entries → Nat → List Field → Entries → Prop
  | nil {entries : Entries} {i : Nat} : Gathered v valueOf entries i [] []
  | written {entries kept : Entries} {i : Nat} {f : Field} {rest : List Field} {value : Expr} :
    entries.value? f.name = some value →
      Gathered v valueOf (entries.remove f.name) (i + 1) rest kept →
      Gathered v valueOf entries i (f :: rest) ((f.name, value) :: kept)
  | fresh {entries kept : Entries} {i : Nat} {f : Field} {rest : List Field} {value : Expr} :
    entries.value? f.name = none → f.visibleFrom v.current = true →
      (valueOf i f).outcome = .ok value → Gathered v valueOf entries (i + 1) rest kept →
      Gathered v valueOf entries i (f :: rest) ((f.name, value) :: kept)
  | omitted {entries kept : Entries} {i : Nat} {f : Field} {rest : List Field} {hidden : String} :
    entries.value? f.name = none → f.visibleFrom v.current = true →
      (valueOf i f).outcome = .error (.unrenderable hidden) →
      Gathered v valueOf entries (i + 1) rest kept → Gathered v valueOf entries i (f :: rest) kept
  | unseen {entries kept : Entries} {i : Nat} {f : Field} {rest : List Field} :
    entries.value? f.name = none → f.visibleFrom v.current = false →
      Gathered v valueOf entries (i + 1) rest kept → Gathered v valueOf entries i (f :: rest) kept

variable {v : Viewpoint} {valueOf : Nat → Field → Attempt Expr} {entries kept : Entries} {i : Nat}
  {fields : List Field}

theorem gathered_of_bareEntries {elts : List Expr}
    (h : (bareEntries v valueOf entries i fields).outcome = .ok elts) :
    ∃ kept, Gathered v valueOf entries i fields kept ∧ elts = kept.toElements := by
  induction fields generalizing entries i elts with
  | nil =>
    cases h
    exact ⟨[], .nil, rfl⟩
  | cons f rest ih =>
    rw [bareEntries] at h
    cases hval : entries.value? f.name with
    | some value =>
      simp only [hval] at h
      obtain ⟨more, hmore, h⟩ := Attempt.bind_eq_ok h
      cases h
      obtain ⟨kept, hkept, rfl⟩ := ih hmore
      exact ⟨_, .written hval hkept, rfl⟩
    | none =>
      simp only [hval] at h
      split at h
      · rename_i hvis
        obtain ⟨value?, hvalue, h⟩ := Attempt.bind_eq_ok h
        obtain ⟨more, hmore, h⟩ := Attempt.bind_eq_ok h
        cases h
        obtain ⟨kept, hkept, rfl⟩ := ih hmore
        rcases Attempt.orOmit_eq_ok hvalue with ⟨value, rfl, hx⟩ | ⟨hidden, rfl, hx⟩
        · exact ⟨_, .fresh hval hvis hx hkept, rfl⟩
        · exact ⟨kept, .omitted hval hvis hx hkept, rfl⟩
      · rename_i hvis
        obtain ⟨kept, hkept, rfl⟩ := ih h
        exact ⟨kept, .unseen hval (Bool.eq_false_iff.2 hvis) hkept, rfl⟩

namespace Gathered

/-- Whatever can be gathered is what filling comes to. -/
theorem outcome_bareEntries (h : Gathered v valueOf entries i fields kept) :
    (bareEntries v valueOf entries i fields).outcome = .ok kept.toElements := by
  induction h with
  | nil => rfl
  | written hval _ ih => simp only [bareEntries, hval, Attempt.outcome_bind, ih]; rfl
  | fresh hval hvis hx _ ih =>
    simp only [bareEntries, hval, hvis, ↓reduceIte, Attempt.outcome_bind, Attempt.orOmit, hx, ih]
    rfl
  | omitted hval hvis hx _ ih =>
    simp only [bareEntries, hval, hvis, ↓reduceIte, Attempt.outcome_bind, Attempt.orOmit, hx, ih]
    rfl
  | unseen hval hvis _ ih => simp only [bareEntries, hval, hvis, Bool.false_eq_true, ↓reduceIte, ih]

theorem sublist_names (h : Gathered v valueOf entries i fields kept) :
    (kept.map (·.1)).Sublist (fields.map (·.name)) := by
  induction h with
  | nil => exact .slnil
  | written _ _ ih => exact ih.cons_cons _
  | fresh _ _ _ _ ih => exact ih.cons_cons _
  | omitted _ _ _ _ ih => exact ih.cons _
  | unseen _ _ _ ih => exact ih.cons _

theorem mem_names (h : Gathered v valueOf entries i fields kept) {name : String} {value : Expr}
    (hmem : (name, value) ∈ kept) : name ∈ fields.map (·.name) :=
  h.sublist_names.subset (List.mem_map.2 ⟨(name, value), hmem, rfl⟩)

/-- An entry has what is written for its field, or a value made for it. -/
theorem of_mem (h : Gathered v valueOf entries i fields kept) :
    ∀ entry ∈ kept, ∃ f ∈ fields, entry.1 = f.name ∧
      (entries.value? f.name = some entry.2 ∨ ∃ j, (valueOf j f).outcome = .ok entry.2) := by
  induction h with
  | nil => nofun
  | @written entries _ _ f _ _ hval _ ih =>
    refine List.forall_mem_cons.2 ⟨⟨f, List.mem_cons_self, rfl, .inl hval⟩, fun entry hentry => ?_⟩
    obtain ⟨g, hg, hname, hvalue⟩ := ih entry hentry
    exact ⟨g, List.mem_cons_of_mem f hg, hname, hvalue.imp_left Entries.value?_of_value?_remove⟩
  | @fresh _ _ i f _ _ _ _ hx _ ih =>
    refine List.forall_mem_cons.2 ⟨⟨f, List.mem_cons_self, rfl, .inr ⟨i, hx⟩⟩, fun entry hentry => ?_⟩
    obtain ⟨g, hg, hentry⟩ := ih entry hentry
    exact ⟨g, List.mem_cons_of_mem f hg, hentry⟩
  | @omitted _ _ _ f _ _ _ _ _ _ ih | @unseen _ _ _ f _ _ _ _ ih =>
    intro entry hentry
    obtain ⟨g, hg, hentry⟩ := ih entry hentry
    exact ⟨g, List.mem_cons_of_mem f hg, hentry⟩

/-- A field that may be named has an entry unless its value is left out. -/
theorem exists_mem (h : Gathered v valueOf entries i fields kept) {f : Field} (hf : f ∈ fields)
    (hvis : f.visibleFrom v.current = true)
    (hval : ∀ j hidden, (valueOf j f).outcome ≠ .error (.unrenderable hidden)) :
    ∃ value, (f.name, value) ∈ kept := by
  induction h with
  | nil => cases hf
  | @written _ _ _ _ _ value _ _ ih | @fresh _ _ _ _ _ value _ _ _ _ ih =>
    rcases List.mem_cons.1 hf with rfl | hf
    · exact ⟨value, List.mem_cons_self⟩
    · exact (ih hf).imp fun _ => List.mem_cons_of_mem _
  | omitted _ _ hx _ ih =>
    rcases List.mem_cons.1 hf with rfl | hf
    · exact absurd hx (hval _ _)
    · exact ih hf
  | unseen _ hunseen _ ih =>
    rcases List.mem_cons.1 hf with rfl | hf
    · exact absurd (hvis.symm.trans hunseen) nofun
    · exact ih hf

/-- What is written for a field goes to the first field of its name. -/
theorem mem_of_written (h : Gathered v valueOf entries i fields kept) {name : String} {value : Expr}
    (hval : entries.value? name = some value) (hname : name ∈ fields.map (·.name)) :
    (name, value) ∈ kept := by
  induction h with
  | nil => cases hname
  | @written entries _ _ f _ value' hval' _ ih =>
    by_cases heq : name = f.name
    · subst heq
      rw [hval] at hval'
      cases hval'
      exact List.mem_cons_self
    · rw [← Entries.value?_remove_of_ne entries heq] at hval
      exact List.mem_cons_of_mem _ (ih hval ((List.mem_cons.1 hname).resolve_left heq))
  | fresh hnone _ _ _ ih =>
    rcases List.mem_cons.1 hname with rfl | hname
    · rw [hval] at hnone
      cases hnone
    · exact List.mem_cons_of_mem _ (ih hval hname)
  | omitted hnone _ _ _ ih | unseen hnone _ _ ih =>
    rcases List.mem_cons.1 hname with rfl | hname
    · rw [hval] at hnone
      cases hnone
    · exact ih hval hname

/-- A field that shares its name with no other has nothing but what is written for it. -/
theorem eq_of_mem (h : Gathered v valueOf entries i fields kept) {name : String} {value value' : Expr}
    (hval : entries.value? name = some value) (hcount : (fields.map (·.name)).count name ≤ 1)
    (hmem : (name, value') ∈ kept) : value' = value := by
  have hmem' := h.mem_of_written hval (h.mem_names hmem)
  have hlength : (kept.filter (·.1 = name)).length ≤ 1 := by
    refine Nat.le_trans (Nat.le_of_eq ?_) (Nat.le_trans (h.sublist_names.count_le name) hcount)
    rw [List.count, List.countP_map, List.countP_eq_length_filter]
    rfl
  have hfilter {x : Expr} (hx : (name, x) ∈ kept) : (name, x) ∈ kept.filter (·.1 = name) :=
    List.mem_filter.2 ⟨hx, decide_eq_true rfl⟩
  obtain ⟨j, hj, hvalue'⟩ := List.mem_iff_getElem.1 (hfilter hmem)
  obtain ⟨k, hk, hvalue⟩ := List.mem_iff_getElem.1 (hfilter hmem')
  obtain rfl : j = k := by omega
  exact (Prod.mk.inj (hvalue'.symm.trans hvalue)).2

end Gathered

end LiteralFill
