import LiteralFill.Proofs.TypeTable.Chains
import Mathlib.Data.List.ModifyLast

namespace LiteralFill

/-- A struct without its field number `k`. Other types stay as they are. -/
def Ty.eraseField (k : Nat) : Ty → Ty
  | .struct fields => .struct (fields.eraseIdx k)
  | ty => ty

@[simp] theorem Ty.isStruct_eraseField (k : Nat) (ty : Ty) : (ty.eraseField k).isStruct = ty.isStruct := by
  cases ty <;> rfl

@[simp] theorem Ty.isNamed_eraseField (k : Nat) (ty : Ty) : (ty.eraseField k).isNamed = ty.isNamed := by
  cases ty <;> rfl

/-- The table in which the struct declared as `home` lacks its field number `k`. -/
def TypeTable.eraseField (t : TypeTable) (home k : Nat) : TypeTable :=
  ⟨t.decls.modify home fun d => { d with underlying := d.underlying.eraseField k }⟩

/-- What becomes of a node: only the definition of `home` changes. -/
def Node.eraseField (home k : Nat) (node : Node) : Node :=
  if node.place = ⟨some home, []⟩ then ⟨node.place, node.ty.eraseField k⟩ else node

@[simp] theorem Node.place_eraseField (home k : Nat) (node : Node) :
    (node.eraseField home k).place = node.place := by
  unfold eraseField
  split <;> rfl

@[simp] theorem Node.isStruct_ty_eraseField (home k : Nat) (node : Node) :
    (node.eraseField home k).ty.isStruct = node.ty.isStruct := by
  unfold eraseField
  split
  · exact node.ty.isStruct_eraseField k
  · rfl

theorem Node.isNamed_ty_eraseField (home k : Nat) (node : Node) :
    (node.eraseField home k).ty.isNamed = node.ty.isNamed := by
  unfold eraseField
  split
  · exact node.ty.isNamed_eraseField k
  · rfl

theorem Node.eraseField_of_named {node : Node} {decl : Nat} (h : node.ty = .named decl) (home k : Nat) :
    node.eraseField home k = node := by
  obtain ⟨place, ty⟩ := node
  cases h
  unfold eraseField
  split <;> rfl

namespace TypeTable

variable (t : TypeTable) (home k : Nat)

@[simp] theorem size_eraseField : (t.eraseField home k).size = t.size := by
  simp [size, eraseField]

theorem get?_eraseField (decl : Nat) : (t.eraseField home k).get? decl = (t.get? decl).map fun d =>
    if decl = home then { d with underlying := d.underlying.eraseField k } else d := by
  simp only [get?, eraseField, Array.getElem?_modify, eq_comm (a := home)]
  split <;> simp

theorem definition?_eraseField (decl : Nat) : (t.eraseField home k).definition? decl =
    (t.definition? decl).map fun ty => if decl = home then ty.eraseField k else ty := by
  rw [definition?, get?_eraseField, definition?, Option.map_map, Option.map_map]
  congr 1
  funext d
  simp only [Function.comp]
  split <;> rfl

/-- Names lead to the same places. -/
theorem follow_eraseField (n : Nat) (node : Node) :
    (t.eraseField home k).follow n (node.eraseField home k) =
      (t.follow n node).map (Node.eraseField home k) := by
  induction n generalizing node with
  | zero => rfl
  | succ n ih =>
    by_cases hnamed : node.ty.isNamed = true
    · obtain ⟨decl, hty⟩ := Ty.isNamed_iff.1 hnamed
      rw [Node.eraseField_of_named hty, follow, follow]
      simp only [hty, definition?_eraseField]
      cases t.definition? decl with
      | none => rfl
      | some ty =>
        have hnode : Node.mk ⟨some decl, []⟩ (if decl = home then ty.eraseField k else ty) =
            Node.eraseField home k ⟨⟨some decl, []⟩, ty⟩ := by
          unfold Node.eraseField
          by_cases hdecl : decl = home <;> simp [hdecl]
        simp only [Option.map_some, hnode]
        exact ih _
    · have hnamed : node.ty.isNamed = false := Bool.eq_false_iff.2 hnamed
      rw [t.follow_of_not_named hnamed,
        follow_of_not_named _ ((node.isNamed_ty_eraseField home k).trans hnamed)]
      rfl

theorem underlyingNode_named_eraseField (node : Node) {decl : Nat} (h : node.ty = .named decl) :
    (t.eraseField home k).underlyingNode node = (t.underlyingNode node).map (Node.eraseField home k) := by
  have hfollow := t.follow_eraseField home k (maxLinks + 1) node
  rwa [Node.eraseField_of_named h] at hfollow

theorem isStruct_underlying_eraseField (ty : Ty) :
    ((t.eraseField home k).underlying ty).map Ty.isStruct = (t.underlying ty).map Ty.isStruct := by
  have hroot : (Node.root ty).eraseField home k = .root ty := if_neg (by simp [Node.root])
  have hfollow : (t.eraseField home k).underlyingNode (.root ty) =
      (t.underlyingNode (.root ty)).map (Node.eraseField home k) :=
    hroot ▸ t.follow_eraseField home k (maxLinks + 1) (.root ty)
  rw [underlying, hfollow, underlying]
  cases t.underlyingNode (.root ty) with
  | error fault => rfl
  | ok target => exact congrArg Except.ok (target.isStruct_ty_eraseField home k)

variable {t} {home k}

theorem hasRefs_eraseField_iff {ty : Ty} : (t.eraseField home k).HasRefs ty ↔ t.HasRefs ty := by
  simp only [HasRefs, size_eraseField]

theorem HasRefs.eraseField {ty : Ty} (h : t.HasRefs ty) : t.HasRefs (ty.eraseField k) := by
  cases ty with
  | struct fields =>
    rw [hasRefs_struct_iff] at h
    exact hasRefs_struct_iff.2 fun f hf => h f (List.mem_of_mem_eraseIdx hf)
  | _ => exact h

theorem Closed.eraseField (h : t.Closed) : (t.eraseField home k).Closed := by
  intro d hd
  rw [hasRefs_eraseField_iff]
  obtain ⟨decl, hdecl, rfl⟩ := List.mem_iff_getElem.1 hd
  have hget : (t.eraseField home k).definition? decl =
      some (t.eraseField home k).decls.toList[decl].underlying := by
    rw [definition?, get?, ← Array.getElem?_toList, List.getElem?_eq_getElem hdecl, Option.map_some]
  rw [definition?_eraseField, Option.map_eq_some_iff] at hget
  obtain ⟨ty, hty, hsame⟩ := hget
  rw [← hsame]
  split
  · exact (h.definition hty).eraseField
  · exact h.definition hty

theorem ChainEnds.eraseField {decl links : Nat} {ty : Ty} (h : t.ChainEnds decl links ty) :
    ∃ ty', (t.eraseField home k).ChainEnds decl links ty' := by
  induction h with
  | stop hd hty =>
    refine ⟨_, .stop (by rw [definition?_eraseField, hd, Option.map_some]) ?_⟩
    split
    · exact (Ty.isNamed_eraseField k _).trans hty
    · exact hty
  | link hd _ ih =>
    obtain ⟨ty', hends⟩ := ih
    refine ⟨ty', .link ?_ hends⟩
    rw [definition?_eraseField, hd, Option.map_some]
    split <;> rfl

/-- A valid table stays valid. -/
theorem validate_eraseField (h : t.validate = .ok ()) : (t.eraseField home k).validate = .ok () := by
  obtain ⟨hclosed, hchains⟩ := validate_eq_ok_iff.1 h
  refine validate_eq_ok_iff.2 ⟨hclosed.eraseField, fun decl hdecl => ?_⟩
  rw [size_eraseField] at hdecl
  obtain ⟨links, ty, hlinks, hends⟩ := hchains decl hdecl
  obtain ⟨ty', hends⟩ := hends.eraseField
  exact ⟨links, ty', hlinks, hends⟩

end TypeTable

/-- The number that a part had before the part number `k` was taken out. -/
def skip (k i : Nat) : Nat := if i < k then i else i + 1

theorem skip_injective (k : Nat) : Function.Injective (skip k) := by
  intro i j h
  unfold skip at h
  split at h <;> split at h <;> omega

theorem modifyLast_injective {α : Type} {f : α → α} (hf : Function.Injective f) :
    Function.Injective (List.modifyLast f) := by
  have hnil : ([] : List α).modifyLast f = [] := rfl
  intro as bs h
  rcases as.eq_nil_or_concat' with rfl | ⟨as, a, rfl⟩
  · rcases bs.eq_nil_or_concat' with rfl | ⟨bs, b, rfl⟩
    · rfl
    · rw [hnil, List.modifyLast_concat] at h
      exact absurd h.symm (List.concat_ne_nil _ _)
  · rcases bs.eq_nil_or_concat' with rfl | ⟨bs, b, rfl⟩
    · rw [hnil, List.modifyLast_concat] at h
      exact absurd h (List.concat_ne_nil _ _)
    · rw [List.modifyLast_concat, List.modifyLast_concat] at h
      obtain ⟨rfl, hlast⟩ := List.append_inj' h rfl
      rw [hf (List.cons.inj hlast).1]

/-- Where a part stood before the definition of `home` lost its field number `k`. The field is the last
step in the list, since the first one taken comes last. -/
def Place.restore (home k : Nat) (place : Place) : Place :=
  if place.decl? = some home then ⟨place.decl?, place.steps.modifyLast (skip k)⟩ else place

@[simp] theorem Place.decl?_restore (home k : Nat) (place : Place) :
    (place.restore home k).decl? = place.decl? := by
  unfold restore
  split <;> rfl

theorem Place.restore_injective (home k : Nat) : Function.Injective (Place.restore home k) := by
  intro p q h
  have hdecl : p.decl? = q.decl? := by
    simpa only [decl?_restore] using congrArg Place.decl? h
  unfold restore at h
  rw [hdecl] at h
  split at h
  · obtain ⟨d, steps⟩ := p
    exact congrArg₂ Place.mk hdecl (modifyLast_injective (skip_injective k) (Place.mk.inj h).2)
  · exact h

/-- A definition stands where it stood. -/
@[simp] theorem Place.restore_root (home k : Nat) (decl? : Option Nat) :
    Place.restore home k ⟨decl?, []⟩ = ⟨decl?, []⟩ := by
  unfold restore
  split <;> rfl

def Node.restore (home k : Nat) (node : Node) : Node := ⟨node.place.restore home k, node.ty⟩

theorem Node.restore_root (home k : Nat) (decl? : Option Nat) (ty : Ty) :
    Node.restore home k ⟨⟨decl?, []⟩, ty⟩ = ⟨⟨decl?, []⟩, ty⟩ :=
  congrArg (Node.mk · ty) (Place.restore_root home k decl?)

/-- The fields have their old numbers back. -/
theorem Node.restore_child_root (home k : Nat) (i : Nat) (ty ty' ty'' : Ty) :
    Node.restore home k (Node.child ⟨⟨some home, []⟩, ty⟩ i ty') =
      Node.child ⟨⟨some home, []⟩, ty''⟩ (skip k i) ty' := by
  simp [restore, child, Place.restore, List.modifyLast, List.modifyLast.go]

/-- Further down the numbers are as they were. -/
theorem Node.restore_child {home : Nat} (k : Nat) {node : Node} (h : node.place ≠ ⟨some home, []⟩)
    (i : Nat) (ty : Ty) : Node.restore home k (node.child i ty) = (node.restore home k).child i ty := by
  obtain ⟨⟨decl?, steps⟩, nodeTy⟩ := node
  unfold restore child Place.restore
  by_cases hdecl : decl? = some home
  · subst hdecl
    have hsteps : steps ≠ [] := fun hsteps => h (congrArg (Place.mk _) hsteps)
    have hlast := List.modifyLast_append_of_right_ne_nil (skip k) [i] steps hsteps
    simp only [List.cons_append, List.nil_append] at hlast
    simp only [if_pos, hlast]
  · simp only [if_neg hdecl]

end LiteralFill
