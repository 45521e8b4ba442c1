import LiteralFill.Proofs.Fill.Calls
import LiteralFill.Proofs.Fill.Outermost
import LiteralFill.Proofs.Relation

namespace LiteralFill

open Relation (ReflTransGen TransGen)

variable {v : Viewpoint}

theorem mem_of_mem_freshFields {entries : Entries} {i : Nat} {fields : List Field} {f : Nat × Field}
    (h : f ∈ freshFields v entries i fields) : (f.2, f.1) ∈ fields.zipIdx i := by
  induction fields generalizing entries i with
  | nil => cases h
  | cons f' rest ih =>
    rw [freshFields] at h
    rw [List.zipIdx_cons]
    split at h
    · exact List.mem_cons_of_mem _ (ih h)
    · split at h
      · rcases List.mem_cons.1 h with rfl | h
        · exact List.mem_cons_self
        · exact List.mem_cons_of_mem _ (ih h)
      · exact List.mem_cons_of_mem _ (ih h)

theorem FieldCalled.exists_eq {path : List Place} {node : Node} {entries : Entries}
    {fields : List Field} {c : Call} (hty : node.ty = .struct fields)
    (h : FieldCalled v path node entries fields c) : ∃ n ∈ node.parts, c = ⟨path, .plain, n⟩ := by
  obtain ⟨hfresh, -⟩ := h
  refine ⟨_, ?_, rfl⟩
  rw [Node.parts, hty]
  refine List.mem_map.2 ⟨_, mem_of_mem_freshFields (hfresh ▸ List.mem_append_right _ List.mem_cons_self), rfl⟩

/-- A call is for a part of the type or for what it is defined as. Only one for the field of a struct
adds to the path. -/
theorem Calls.inversion {c c' : Call} (h : Calls v c c') :
    (∃ n ∈ c.node.parts, c' = ⟨c.path, .elidedType, n⟩ ∨
      c' = ⟨c.path, { c.style with addressed := true }, n⟩ ∨
      c.node.place ∉ c.path ∧ c' = ⟨c.node.place :: c.path, .plain, n⟩) ∨
    ∃ target, v.table.underlyingNode c.node = .ok target ∧ c' =
      ⟨c.path, { c.style with decl? := if target.ty.isStruct then c.node.ty.decl? else none }, target⟩ := by
  cases h with
  | element hty _ _ => exact .inl ⟨_, by rw [Node.parts, hty]; exact List.mem_cons_self, .inl rfl⟩
  | key hty _ _ => exact .inl ⟨_, by rw [Node.parts, hty]; exact List.mem_cons_self, .inl rfl⟩
  | value hty _ _ _ =>
    exact .inl ⟨_, by rw [Node.parts, hty]; exact List.mem_cons_of_mem _ List.mem_cons_self, .inl rfl⟩
  | field hty _ hplace hc =>
    obtain ⟨n, hn, rfl⟩ := hc.exists_eq hty
    exact .inl ⟨n, hn, .inr (.inr ⟨hplace, rfl⟩)⟩
  | definition hty htarget => exact .inr ⟨_, htarget, by rw [hty]; rfl⟩
  | pointee hty _ _ =>
    exact .inl ⟨_, by rw [Node.parts, hty]; exact List.mem_cons_self, .inr (.inl rfl)⟩

theorem Calls.finite (c : Call) : {c' | Calls v c c'}.Finite := by
  let element (n : Node) : Call := ⟨c.path, .elidedType, n⟩
  let pointee (n : Node) : Call := ⟨c.path, { c.style with addressed := true }, n⟩
  let field (n : Node) : Call := ⟨c.node.place :: c.path, .plain, n⟩
  let definition (n : Node) : Call :=
    ⟨c.path, { c.style with decl? := if n.ty.isStruct then c.node.ty.decl? else none }, n⟩
  have hparts : {n | n ∈ c.node.parts}.Finite := List.finite_toSet c.node.parts
  have htargets : {n | v.table.underlyingNode c.node = .ok n}.Finite :=
    Set.Subsingleton.finite fun n hn m hm => Except.ok.inj (hn.symm.trans hm)
  have hfin := (((hparts.image element).union (hparts.image pointee)).union
    (hparts.image field)).union (htargets.image definition)
  apply hfin.subset
  intro c' hc'
  rcases Calls.inversion hc' with ⟨n, hn, rfl | rfl | ⟨-, rfl⟩⟩ | ⟨target, htarget, rfl⟩
  · exact .inl (.inl (.inl ⟨n, hn, rfl⟩))
  · exact .inl (.inl (.inr ⟨n, hn, rfl⟩))
  · exact .inl (.inr ⟨n, hn, rfl⟩)
  · exact .inr ⟨target, htarget, rfl⟩

theorem Call.tooDeep_of_le {c : Call} {depth depth' : Nat} (hle : depth ≤ depth')
    (h : (c.attempt v depth').outcome = .error .tooDeep) :
    (c.attempt v depth).outcome = .error .tooDeep := by
  by_contra hne
  rw [Call.attempt, settled_bareZero hle c.path c.style c.node hne] at h
  exact hne h

/-- Finitely many calls that come to an end do so at one depth. -/
theorem exists_depth_of_ends {cs : Set Call} (hfin : cs.Finite) (h : ∀ c ∈ cs, c.Ends v) :
    ∃ depth, ∀ c ∈ cs, (c.attempt v depth).outcome ≠ .error .tooDeep := by
  induction cs, hfin using Set.Finite.induction_on with
  | empty => exact ⟨0, nofun⟩
  | @insert c cs _ _ ih =>
    obtain ⟨depth, hdepth⟩ := ih fun c' hc' => h c' (Set.mem_insert_of_mem c hc')
    obtain ⟨depth', hdepth'⟩ := h c (Set.mem_insert c cs)
    refine ⟨max depth depth', fun c' hc' => ?_⟩
    rcases hc' with rfl | hc'
    · exact fun ht => hdepth' (Call.tooDeep_of_le (Nat.le_max_right _ _) ht)
    · exact fun ht => hdepth c' hc' (Call.tooDeep_of_le (Nat.le_max_left _ _) ht)

/-- A call comes to an end exactly if no endless row of calls starts with it. -/
theorem Call.ends_iff_acc {c : Call} : c.Ends v ↔ Acc (fun c' c => Calls v c c') c := by
  constructor
  -- a call that is made has one step less to come to its end
  · rintro ⟨depth, h⟩
    induction depth generalizing c with
    | zero => exact absurd rfl h
    | succ depth ih => exact Acc.intro c fun c' hc' => ih fun ht => h (tooDeep_of_calls hc' ht)
  · intro h
    induction h with
    -- the calls that are made are finitely many, so that one depth is enough for all of them
    | intro c _ ih =>
      obtain ⟨depth, hdepth⟩ := exists_depth_of_ends (Calls.finite c) ih
      refine ⟨depth + 1, fun ht => ?_⟩
      obtain ⟨c', hc', ht⟩ := exists_calls_of_tooDeep ht
      exact hdepth c' hc' ht

/-- A call for a type met on the way down from `node`, inside of structs met there too. -/
structure Call.Within (v : Viewpoint) (node : Node) (c : Call) : Prop where
  node_mem : c.node ∈ v.table.nodesFrom node
  decl_mem : c.style.decl? ∈ insert none ((fun n : Node => n.ty.decl?) '' v.table.nodesFrom node)
  path_nodup : c.path.Nodup
  path_mem : ∀ p ∈ c.path, p ∈ Node.place '' v.table.nodesFrom node

theorem Call.Within.calls {node : Node} {c c' : Call} (h : c.Within v node) (hc : Calls v c c') :
    c'.Within v node := by
  rcases hc.inversion with ⟨n, hn, rfl | rfl | ⟨hplace, rfl⟩⟩ | ⟨target, htarget, rfl⟩
  · exact ⟨TypeTable.nodesFrom_of_parts h.node_mem hn, .inl rfl, h.path_nodup, h.path_mem⟩
  · exact ⟨TypeTable.nodesFrom_of_parts h.node_mem hn, h.decl_mem, h.path_nodup, h.path_mem⟩
  · refine ⟨TypeTable.nodesFrom_of_parts h.node_mem hn, .inl rfl,
      List.nodup_cons.2 ⟨hplace, h.path_nodup⟩, fun p hp => ?_⟩
    rcases List.mem_cons.1 hp with rfl | hp
    · exact ⟨c.node, h.node_mem, rfl⟩
    · exact h.path_mem p hp
  · refine ⟨TypeTable.nodesFrom_of_underlyingNode h.node_mem htarget, ?_, h.path_nodup, h.path_mem⟩
    cases target.ty.isStruct with
    | true => exact .inr ⟨c.node, h.node_mem, rfl⟩
    | false => exact .inl rfl

theorem Call.finite_within (v : Viewpoint) (node : Node) : {c : Call | c.Within v node}.Finite := by
  let toCall (x : List Place × Option Nat × (Bool × Bool) × Node) : Call :=
    ⟨x.1, ⟨x.2.1, x.2.2.1.1, x.2.2.1.2⟩, x.2.2.2⟩
  have hnodes := v.table.finite_nodesFrom node
  have hpaths := finite_nodup_lists (hnodes.image Node.place)
  have hdecls := (hnodes.image fun n : Node => n.ty.decl?).insert none
  have hflags : (Set.univ : Set (Bool × Bool)).Finite := Set.finite_univ
  have hfin := (hpaths.prod (hdecls.prod (hflags.prod hnodes))).image toCall
  apply hfin.subset
  intro c hc
  exact ⟨(c.path, c.style.decl?, (c.style.elided, c.style.addressed), c.node),
    ⟨⟨hc.path_nodup, hc.path_mem⟩, hc.decl_mem, trivial, hc.node_mem⟩, rfl⟩

end LiteralFill
