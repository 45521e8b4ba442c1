import LiteralFill.Proofs.TypeTable.References

namespace LiteralFill.TypeTable

/-- The declarations met from `decl` on, at most `n` of them, as long as each is defined as a name. -/
def nameChain (t : TypeTable) : Nat → Nat → List Nat
  | 0, _ => []
  | n + 1, decl =>
    match t.definition? decl with
    | some (.named next) => decl :: t.nameChain n next
    | _ => []

/-- The marks of a search are on the declarations that it has passed. -/
structure Marks (t : TypeTable) (seen : Array Bool) (passed : List Nat) : Prop where
  size_eq : seen.size = t.size
  marked_iff : ∀ decl, seen.getD decl false = true ↔ decl ∈ passed

variable {t : TypeTable}

theorem nameChain_succ_eq_nil {decl : Nat} (h : ∀ next, t.definition? decl ≠ some (.named next))
    (n : Nat) : t.nameChain (n + 1) decl = [] := by
  rw [nameChain]
  split
  · exact absurd ‹_› (h _)
  · rfl

theorem nameChain_succ_of_isNamed_eq_false {decl : Nat} {ty : Ty} (hd : t.definition? decl = some ty)
    (hty : ty.isNamed = false) (n : Nat) : t.nameChain (n + 1) decl = [] := by
  refine nameChain_succ_eq_nil (fun next hnext => ?_) n
  obtain rfl := Option.some.inj (hd.symm.trans hnext)
  cases hty

theorem nameChain_succ_of_named {decl next : Nat} (hd : t.definition? decl = some (.named next))
    (n : Nat) : t.nameChain (n + 1) decl = decl :: t.nameChain n next := by
  rw [nameChain, hd]

theorem length_nameChain_le (t : TypeTable) (n decl : Nat) : (t.nameChain n decl).length ≤ n := by
  fun_induction t.nameChain n decl with
  | case1 => exact Nat.le_refl 0
  | case2 n decl next hd ih => exact Nat.succ_le_succ ih
  | case3 => exact Nat.zero_le _

/-- A chain that has come to its end is not continued by a search that may look at more. -/
theorem nameChain_succ_of_length_lt {n decl : Nat} (h : (t.nameChain n decl).length < n) :
    t.nameChain (n + 1) decl = t.nameChain n decl := by
  fun_induction t.nameChain n decl with
  | case1 => exact absurd h (Nat.lt_irrefl 0)
  | case2 n decl next hd ih => rw [nameChain_succ_of_named hd, ih (Nat.lt_of_succ_lt_succ h)]
  | case3 n decl hd => exact nameChain_succ_eq_nil hd _

theorem length_nameChain_le_of_mem {n decl d : Nat} (h : (t.nameChain n decl).length < n)
    (hmem : d ∈ t.nameChain n decl) : (t.nameChain n d).length ≤ (t.nameChain n decl).length := by
  fun_induction t.nameChain n decl with
  | case1 => exact absurd h (Nat.lt_irrefl 0)
  | case2 n decl next hd ih =>
    by_cases hdecl : d = decl
    · rw [hdecl, nameChain_succ_of_named hd]
    · have hlt : (t.nameChain n next).length < n := Nat.lt_of_succ_lt_succ h
      have hle := ih hlt ((List.mem_cons.1 hmem).resolve_left hdecl)
      rw [nameChain_succ_of_length_lt (hle.trans_lt hlt)]
      exact Nat.le_succ_of_le hle
  | case3 => exact absurd hmem List.not_mem_nil

/-- A chain that comes to an end meets no declaration twice: there are always fewer to come. -/
theorem nodup_nameChain_of_length_lt {n decl : Nat} (h : (t.nameChain n decl).length < n) :
    (t.nameChain n decl).Nodup := by
  fun_induction t.nameChain n decl with
  | case1 => exact List.nodup_nil
  | case2 n decl next hd ih =>
    have hlt : (t.nameChain n next).length < n := Nat.lt_of_succ_lt_succ h
    rw [List.nodup_cons]
    refine ⟨fun hmem => ?_, ih hlt⟩
    have hle := length_nameChain_le_of_mem hlt hmem
    rw [← nameChain_succ_of_length_lt (hle.trans_lt hlt), nameChain_succ_of_named hd, List.length_cons] at hle
    omega
  | case3 => exact List.nodup_nil

theorem marks_nil (t : TypeTable) : t.Marks (Array.replicate t.size false) [] := by
  refine ⟨Array.size_replicate, fun decl => ?_⟩
  rw [Array.getD_eq_getD_getElem?, Array.getElem?_replicate]
  split <;> simp

theorem Marks.cons {seen : Array Bool} {passed : List Nat} (h : t.Marks seen passed) {decl : Nat}
    (hdecl : decl < t.size) : t.Marks (seen.setIfInBounds decl true) (decl :: passed) := by
  refine ⟨Array.size_setIfInBounds.trans h.size_eq, fun d => ?_⟩
  have hmarked := h.marked_iff d
  rw [Array.getD_eq_getD_getElem?] at hmarked
  rw [Array.getD_eq_getD_getElem?, Array.getElem?_setIfInBounds, List.mem_cons, ← hmarked]
  by_cases hd : decl = d
  · simp [← hd, h.size_eq, hdecl]
  · simp [hd, Ne.symm hd]

/-- What a search reports that has passed some declarations and may look at so many more. The passed ones
are all different, or it would have come to an end before. -/
theorem Marks.chainErrorFrom?_eq {name : String} {seen : Array Bool} {passed : List Nat}
    (hmarks : t.Marks seen passed) (hpassed : passed.Nodup) {links left : Nat}
    (h : links + left = maxLinks) (decl : Nat) : t.chainErrorFrom? name seen links decl =
      if (t.nameChain (left + 1) decl ++ passed).Nodup then
        if (t.nameChain (left + 1) decl).length ≤ left then none else some .maxDepthExceeded
      else some (.selfReferential name) := by
  fun_induction t.chainErrorFrom? name seen links decl generalizing passed left with
  | case1 seen links decl next hd hseen =>
    rw [nameChain_succ_of_named hd, if_neg]
    intro hnodup
    have hmem := (hmarks.marked_iff decl).1 hseen
    exact (List.nodup_cons.1 hnodup).1 (List.mem_append_right _ hmem)
  | case2 seen links decl next hd hseen hlast =>
    obtain rfl : left = 0 := by omega
    have hmem := mt (hmarks.marked_iff decl).2 hseen
    rw [nameChain_succ_of_named hd, if_pos, if_neg (by simp)]
    exact List.nodup_cons.2 ⟨hmem, hpassed⟩
  | case3 seen links decl next hd hseen hmore ih =>
    obtain ⟨left, rfl⟩ : ∃ n, left = n + 1 := Nat.exists_eq_succ_of_ne_zero (by omega)
    have hmem := mt (hmarks.marked_iff decl).2 hseen
    have hdecl : decl < t.size := by
      by_contra hge
      exact absurd (definition?_eq_none_iff.2 (Nat.le_of_not_lt hge)) (by simp [hd])
    rw [ih (hmarks.cons hdecl) (List.nodup_cons.2 ⟨hmem, hpassed⟩) (by omega : links + 1 + left = maxLinks),
      nameChain_succ_of_named hd, List.length_cons]
    simp only [List.nodup_middle, List.cons_append, Nat.add_le_add_iff_right]
  | case4 seen links decl hd =>
    rw [nameChain_succ_eq_nil hd, List.nil_append, if_pos hpassed, List.length_nil,
      if_pos (Nat.zero_le left)]

/-- A search from the start reports a repetition only where the end is out of its reach. -/
theorem chainError?_eq (t : TypeTable) (start : Nat) (name : String) : t.chainError? start name =
    if (t.nameChain (maxLinks + 1) start).length ≤ maxLinks then none
    else if (t.nameChain (maxLinks + 1) start).Nodup then some .maxDepthExceeded
    else some (.selfReferential name) := by
  rw [chainError?, t.marks_nil.chainErrorFrom?_eq List.nodup_nil (Nat.zero_add maxLinks), List.append_nil]
  by_cases hle : (t.nameChain (maxLinks + 1) start).length ≤ maxLinks
  · have hnodup := nodup_nameChain_of_length_lt (Nat.lt_succ_of_le hle)
    simp [hle, hnodup]
  · simp [hle]

theorem chainError?_eq_none_iff {decl : Nat} {name : String} :
    t.chainError? decl name = none ↔ (t.nameChain (maxLinks + 1) decl).length ≤ maxLinks := by
  rw [chainError?_eq]
  split
  · simp [*]
  · split <;> simp [*]

end LiteralFill.TypeTable
