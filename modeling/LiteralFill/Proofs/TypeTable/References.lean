import LiteralFill.Proofs.Outcome
import LiteralFill.Proofs.TypeTable.Nodes

namespace LiteralFill

namespace TypeTable

/-- The table has every declaration that a type refers to. -/
def HasRefs (t : TypeTable) (ty : Ty) : Prop := ∀ decl ∈ ty.refs, decl < t.size

/-- No definition in the table refers out of it. -/
def Closed (t : TypeTable) : Prop := ∀ d ∈ t.decls.toList, t.HasRefs d.underlying

variable {t : TypeTable}

theorem refError?_eq_none_iff {ty : Ty} : t.refError? ty = none ↔ t.HasRefs ty := by
  simp only [refError?, Option.map_eq_none_iff, List.find?_eq_none, decide_eq_true_eq, not_le, HasRefs]

theorem validateType_eq_ok_iff {ty : Ty} : t.validateType ty = .ok () ↔ t.HasRefs ty := by
  rw [validateType, elim_eq_ok_iff, refError?_eq_none_iff]

theorem hasRefs_named_iff {decl : Nat} : t.HasRefs (.named decl) ↔ decl < t.size := by
  simp [HasRefs, Ty.refs]

theorem hasRefs_array_iff {len : Nat} {elem : Ty} : t.HasRefs (.array len elem) ↔ t.HasRefs elem := by
  simp only [HasRefs, Ty.refs]

theorem hasRefs_pointer_iff {elem : Ty} : t.HasRefs (.pointer elem) ↔ t.HasRefs elem := by
  simp only [HasRefs, Ty.refs]

theorem hasRefs_map_iff {key value : Ty} :
    t.HasRefs (.map key value) ↔ t.HasRefs key ∧ t.HasRefs value := by
  simp only [HasRefs, Ty.refs, List.forall_mem_append]

theorem hasRefs_struct_iff {fields : List Field} :
    t.HasRefs (.struct fields) ↔ ∀ f ∈ fields, t.HasRefs f.ty := by
  simp only [HasRefs, Ty.refs]
  induction fields with
  | nil => simp [fieldRefs]
  | cons f rest ih =>
    have hcons : fieldRefs (f :: rest) = f.ty.refs ++ fieldRefs rest := by
      cases f
      rfl
    simp only [hcons, List.forall_mem_append, List.forall_mem_cons, ih]

theorem definition?_eq_none_iff {decl : Nat} : t.definition? decl = none ↔ t.size ≤ decl := by
  simp [definition?, get?, size]

theorem Closed.definition (h : t.Closed) {decl : Nat} {ty : Ty}
    (hd : t.definition? decl = some ty) : t.HasRefs ty := by
  obtain ⟨d, hget, rfl⟩ := Option.map_eq_some_iff.1 hd
  exact h d (Array.mem_toList_iff.2 (Array.mem_of_getElem? hget))

/-- Following names stays inside a closed table. -/
theorem Closed.follow (h : t.Closed) {n : Nat} {node : Node} (hn : t.HasRefs node.ty) :
    (∀ decl, t.follow n node ≠ .error (.dangling decl)) ∧
      ∀ target, t.follow n node = .ok target → t.HasRefs target.ty := by
  induction n generalizing node with
  | zero => exact ⟨fun decl h => (by cases h), fun target h => (by cases h)⟩
  | succ n ih =>
    rw [TypeTable.follow]
    split
    · rename_i decl hty
      rw [hty, hasRefs_named_iff] at hn
      split
      · rename_i ty hd
        exact ih (h.definition hd)
      · rename_i hd
        have := definition?_eq_none_iff.1 hd
        omega
    · refine ⟨fun decl h => (by cases h), fun target h => ?_⟩
      cases h
      exact hn

/-- A search along names leaves a closed table only where it starts outside of it. -/
theorem Closed.underlying_dangling_iff (h : t.Closed) {ty : Ty} {decl : Nat} :
    t.underlying ty = .error (.dangling decl) ↔ ty = .named decl ∧ t.size ≤ decl := by
  have hmap {r : Except Fault Node} :
      (·.ty) <$> r = .error (.dangling decl) ↔ r = .error (.dangling decl) := by
    cases r <;> simp [Functor.map, Except.map]
  rw [underlying, hmap]
  by_cases hty : ty.isNamed = true
  · obtain ⟨start, rfl⟩ := Ty.isNamed_iff.1 hty
    rw [underlyingNode, TypeTable.follow]
    simp only [Node.root]
    cases hd : t.definition? start with
    | none =>
      have hstart := definition?_eq_none_iff.1 hd
      constructor
      · rintro ⟨⟩
        exact ⟨rfl, hstart⟩
      · rintro ⟨⟨⟩, -⟩
        rfl
    | some ty =>
      refine iff_of_false ((h.follow (h.definition hd)).1 decl) ?_
      rintro ⟨⟨⟩, hstart⟩
      rw [definition?_eq_none_iff.2 hstart] at hd
      cases hd
  · have hroot : (Node.root ty).ty.isNamed = false := Bool.eq_false_iff.2 hty
    rw [t.underlyingNode_of_not_named hroot]
    refine iff_of_false (fun h => by cases h) ?_
    rintro ⟨rfl, -⟩
    exact hty rfl

end TypeTable

end LiteralFill
