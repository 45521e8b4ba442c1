import LiteralFill.Proofs.Relation
import LiteralFill.TypeTable

namespace LiteralFill

open Relation (ReflTransGen)

/-- The number under which a type is declared, if it is written by name. -/
def Ty.decl? : Ty → Option Nat
  | .named decl => some decl
  | _ => none

theorem Ty.isNamed_iff {ty : Ty} : ty.isNamed = true ↔ ∃ decl, ty = .named decl := by
  constructor
  · intro h
    cases ty with
    | named decl => exact ⟨decl, rfl⟩
    | _ => cases h
  · rintro ⟨decl, rfl⟩
    rfl

theorem TypeTable.underlyingNode_of_named (t : TypeTable) {node : Node} {decl : Nat}
    (h : node.ty = .named decl) : t.underlyingNode node = t.underlyingNode (.root (.named decl)) := by
  simp only [underlyingNode, follow, h, Node.root]

theorem TypeTable.follow_of_not_named (t : TypeTable) {node : Node} (h : node.ty.isNamed = false)
    (n : Nat) : t.follow (n + 1) node = .ok node := by
  rw [follow]
  cases hty : node.ty with
  | named decl => rw [hty] at h; cases h
  | _ => rfl

theorem TypeTable.underlyingNode_of_not_named (t : TypeTable) {node : Node}
    (h : node.ty.isNamed = false) : t.underlyingNode node = .ok node :=
  t.follow_of_not_named h _

theorem TypeTable.structFields?_eq_some_iff {t : TypeTable} {ty : Ty} {fields : List Field} :
    t.structFields? ty = .ok (some fields) ↔
      ∃ target, t.underlyingNode (.root ty) = .ok target ∧ target.ty = .struct fields := by
  unfold structFields? underlying
  cases t.underlyingNode (.root ty) with
  | error f => exact ⟨nofun, nofun⟩
  | ok target =>
    obtain ⟨place, ty'⟩ := target
    cases ty' <;> simp [Functor.map, Except.map]

/-- The types that a type is made of, one step down. -/
def Node.parts (n : Node) : List Node :=
  match n.ty with
  | .array _ elem => [n.child 0 elem]
  | .map key value => [n.child 0 key, n.child 1 value]
  | .struct fields => fields.zipIdx.map fun (f, i) => n.child i f.ty
  | .pointer elem => [n.child 0 elem]
  | _ => []

theorem Field.sizeOf_ty_lt {f : Field} {fields : List Field} (h : f ∈ fields) :
    sizeOf f.ty < sizeOf (Ty.struct fields) := by
  have hf := List.sizeOf_lt_of_mem h
  cases f
  simp only [Field.mk.sizeOf_spec] at hf
  simp only [Ty.struct.sizeOf_spec]
  omega

theorem Node.sizeOf_lt_of_mem_parts {n m : Node} (h : m ∈ n.parts) : sizeOf m.ty < sizeOf n.ty := by
  unfold parts at h
  split at h
  · rename_i hty
    obtain rfl := List.mem_singleton.1 h
    rw [hty]
    simp only [Node.child, Ty.array.sizeOf_spec]
    omega
  · rename_i hty
    rw [hty]
    rcases List.mem_cons.1 h with rfl | h
    · simp only [Node.child, Ty.map.sizeOf_spec]
      omega
    · obtain rfl := List.mem_singleton.1 h
      simp only [Node.child, Ty.map.sizeOf_spec]
      omega
  · rename_i hty
    obtain ⟨⟨f, i⟩, hf, rfl⟩ := List.mem_map.1 h
    rw [hty]
    exact Field.sizeOf_ty_lt (List.fst_mem_of_mem_zipIdx hf)
  · rename_i hty
    obtain rfl := List.mem_singleton.1 h
    rw [hty]
    simp only [Node.child, Ty.pointer.sizeOf_spec]
    omega
  · cases h

theorem Node.finite_reachable (n : Node) : {m | ReflTransGen (fun n m => m ∈ n.parts) n m}.Finite := by
  refine finite_reachable_of_acc (fun n => List.finite_toSet n.parts) ?_
  exact Subrelation.accessible Node.sizeOf_lt_of_mem_parts
    (InvImage.accessible (fun n : Node => sizeOf n.ty) (Nat.lt_wfRel.wf.apply _))

/-- The definitions of a table, as types of their own. -/
def TypeTable.roots (t : TypeTable) : List Node :=
  t.decls.toList.zipIdx.map fun (d, i) => ⟨⟨some i, []⟩, d.underlying⟩

theorem TypeTable.mem_roots {t : TypeTable} {decl : Nat} {ty : Ty}
    (h : t.definition? decl = some ty) : ⟨⟨some decl, []⟩, ty⟩ ∈ t.roots := by
  obtain ⟨d, hd, rfl⟩ := Option.map_eq_some_iff.1 h
  refine List.mem_map.2 ⟨(d, decl), List.mk_mem_zipIdx_iff_getElem?.2 ?_, rfl⟩
  rwa [Array.getElem?_toList]

/-- Names lead to a definition. -/
theorem TypeTable.definition?_of_follow {t : TypeTable} {n : Nat} {node target : Node}
    (h : t.follow n node = .ok target) : target = node ∨
      ∃ decl ty, t.definition? decl = some ty ∧ target = ⟨⟨some decl, []⟩, ty⟩ := by
  induction n generalizing node with
  | zero => cases h
  | succ n ih =>
    rw [follow] at h
    split at h
    · split at h
      · rename_i ty hty
        right
        rcases ih h with rfl | h
        · exact ⟨_, ty, hty, rfl⟩
        · exact h
      · cases h
    · cases h
      exact .inl rfl

theorem TypeTable.follow_mem_roots {t : TypeTable} {n : Nat} {node target : Node}
    (h : t.follow n node = .ok target) : target = node ∨ target ∈ t.roots :=
  (definition?_of_follow h).imp_right fun ⟨_, _, hty, htarget⟩ => htarget ▸ mem_roots hty

/-- The types that can be met on the way down from a type. -/
def TypeTable.nodesFrom (t : TypeTable) (node : Node) : Set Node :=
  {m | ∃ root ∈ node :: t.roots, ReflTransGen (fun n m => m ∈ n.parts) root m}

namespace TypeTable

variable {t : TypeTable} {node n m : Node}

theorem finite_nodesFrom (t : TypeTable) (node : Node) : (t.nodesFrom node).Finite := by
  refine ((List.finite_toSet (node :: t.roots)).biUnion fun root _ => root.finite_reachable).subset ?_
  rintro m ⟨root, hroot, hm⟩
  exact Set.mem_biUnion hroot hm

theorem self_mem_nodesFrom : node ∈ t.nodesFrom node := ⟨node, List.mem_cons_self, .refl⟩

theorem nodesFrom_of_parts (h : n ∈ t.nodesFrom node) (hm : m ∈ n.parts) : m ∈ t.nodesFrom node := by
  obtain ⟨root, hroot, hn⟩ := h
  exact ⟨root, hroot, hn.tail hm⟩

theorem nodesFrom_of_underlyingNode (h : n ∈ t.nodesFrom node) (hm : t.underlyingNode n = .ok m) :
    m ∈ t.nodesFrom node := by
  rcases follow_mem_roots hm with rfl | hm
  · exact h
  · exact ⟨m, List.mem_cons_of_mem node hm, .refl⟩

end TypeTable

end LiteralFill
