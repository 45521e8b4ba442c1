import LiteralFill.Index.PackageCodec
import Mathlib.Data.List.Basic

namespace LiteralFill.Json

mutual

/-- How many arrays and objects are nested. -/
def depth : Json → Nat
  | .arr items => itemsDepth items + 1
  | .obj members => membersDepth members + 1
  | _ => 0

def itemsDepth : List Json → Nat
  | [] => 0
  | j :: rest => max j.depth (itemsDepth rest)

def membersDepth : List (String × Json) → Nat
  | [] => 0
  | (_, j) :: rest => max j.depth (membersDepth rest)

end

/-- What a member holds by default, if its record may leave it out. A name has one default in all records
whose member it is; a record in which it is required never has that value there. -/
def defaultOf? : String → Option Json
  | "pos" | "lbrace" | "rbrace" | "colon" | "op_pos" | "lparen" | "rparen" | "lbrack" | "rbrack" | "star"
  | "func" | "map" => some (posJson noPos)
  | "types" | "files" | "imports" | "literals" | "params" | "results" | "methods" | "elts" | "args" =>
    some (.arr [])
  | "variadic" | "embedded" | "has_ellipsis" | "slice3" | "type_elided" => some (.bool false)
  | "name" | "scope" | "ty" | "low" | "high" | "max" | "elt" | "len" => some .null
  | "dir" => some (.str ChanDir.both.tag)
  | _ => none

mutual

/-- The document on the right is the one on the left without some of the members, wherever they stand,
that hold their default. -/
inductive Omits : Json → Json → Prop
  | refl (j : Json) : Omits j j
  | arr {items items' : List Json} : OmitsItems items items' → Omits (.arr items) (.arr items')
  | obj {members kept : List (String × Json)} : OmitsMembers members kept → Omits (.obj members) (.obj kept)

inductive OmitsItems : List Json → List Json → Prop
  | nil : OmitsItems [] []
  | cons {j j' : Json} {rest rest' : List Json} :
    Omits j j' → OmitsItems rest rest' → OmitsItems (j :: rest) (j' :: rest')

inductive OmitsMembers : List (String × Json) → List (String × Json) → Prop
  | nil : OmitsMembers [] []
  | keep {name : String} {j j' : Json} {rest kept : List (String × Json)} :
    Omits j j' → OmitsMembers rest kept → OmitsMembers ((name, j) :: rest) ((name, j') :: kept)
  | leave {name : String} {j : Json} {rest kept : List (String × Json)} :
    defaultOf? name = some j → OmitsMembers rest kept → OmitsMembers ((name, j) :: rest) kept

end

variable {j j' : Json} {items items' : List Json} {members kept : List (String × Json)}

theorem OmitsItems.refl : ∀ items : List Json, OmitsItems items items
  | [] => .nil
  | j :: rest => .cons (.refl j) (OmitsItems.refl rest)

theorem OmitsMembers.refl : ∀ members : List (String × Json), OmitsMembers members members
  | [] => .nil
  | (_, j) :: rest => .keep (.refl j) (OmitsMembers.refl rest)

theorem Omits.of_arr (h : (Json.arr items).Omits j) :
    ∃ items', j = .arr items' ∧ OmitsItems items items' := by
  cases h with
  | refl => exact ⟨items, rfl, .refl items⟩
  | arr hitems => exact ⟨_, rfl, hitems⟩

theorem Omits.of_obj (h : (Json.obj members).Omits j) :
    ∃ kept, j = .obj kept ∧ OmitsMembers members kept := by
  cases h with
  | refl => exact ⟨members, rfl, .refl members⟩
  | obj hmembers => exact ⟨_, rfl, hmembers⟩

theorem Omits.ne_null (h : j.Omits j') (hj : j ≠ .null) : j' ≠ .null := by
  cases h with
  | refl => exact hj
  | arr _ | obj _ => exact Json.noConfusion

/-- What is found in place of the member of a record: its value, in which no more than `depth` arrays and
objects are nested, or nothing if the value is the default. -/
inductive Survives (depth : Nat) : String × Json → Option Json → Prop
  | left {name : String} {j : Json} : defaultOf? name = some j → Survives depth (name, j) none
  | stays {name : String} {j j' : Json} : j.Omits j' → j'.depth ≤ depth → Survives depth (name, j) (some j')

theorem OmitsMembers.sublist (h : OmitsMembers members kept) :
    (kept.map Prod.fst).Sublist (members.map Prod.fst) := by
  induction members generalizing kept with
  | nil =>
    cases h
    exact .slnil
  | cons member rest ih =>
    cases h with
    | keep _ hrest => exact (ih hrest).cons_cons _
    | leave _ hrest => exact (ih hrest).cons _

/-- Looked up by their names, the members of a record are those it was written with. -/
theorem OmitsMembers.survives {depth : Nat} (h : OmitsMembers members kept)
    (hnodup : (members.map Prod.fst).Nodup) (hdepth : membersDepth kept ≤ depth) :
    ∀ member ∈ members, Survives depth member (List.lookup member.1 kept) := by
  induction members generalizing kept with
  | nil => exact fun member hmember => (List.not_mem_nil hmember).elim
  | cons member rest ih =>
    obtain ⟨name, value⟩ := member
    obtain ⟨hfresh, hrest⟩ : name ∉ rest.map Prod.fst ∧ (rest.map Prod.fst).Nodup := List.nodup_cons.1 hnodup
    cases h with
    | @keep _ _ value' _ kept' hvalue hkept =>
      obtain ⟨hbound, hbounds⟩ := Nat.max_le.1 hdepth
      refine List.forall_mem_cons.2 ⟨?_, fun other hother => ?_⟩
      · rw [List.lookup_cons_self]
        exact .stays hvalue hbound
      · have hne : other.1 ≠ name := fun heq => hfresh (heq ▸ List.mem_map_of_mem hother)
        rw [List.lookup_cons, beq_false_of_ne hne]
        exact ih hkept hrest hbounds other hother
    | leave hdefault hkept =>
      have hgone : kept.lookup name = none := List.lookup_eq_none_iff.2 fun other hother =>
        bne_iff_ne.2 fun heq => hfresh (hkept.sublist.subset (heq ▸ List.mem_map_of_mem hother))
      exact List.forall_mem_cons.2 ⟨hgone.symm ▸ .left hdefault, ih hkept hrest hdepth⟩

/-- A record is read by its names whatever has been left out of it. -/
theorem Omits.record {depth : Nat} (h : (Json.obj members).Omits j) (names : List String)
    (hnames : members.map Prod.fst = names) (hnodup : names.Nodup) (hdepth : j.depth ≤ depth) :
    ∃ d value, depth = d + 1 ∧ j.members? names = some (names.map value) ∧
      members.Forall fun member => Survives d member (value member.1) := by
  subst hnames
  obtain ⟨kept, rfl, hkept⟩ := h.of_obj
  obtain ⟨d, rfl⟩ : ∃ d, depth = d + 1 := Nat.exists_eq_add_of_le' (Nat.le_trans (Nat.le_add_left ..) hdepth)
  refine ⟨d, fun name => List.lookup name kept, rfl, ?_,
    List.forall_iff_forall_mem.2 (hkept.survives hnodup (Nat.le_of_succ_le_succ hdepth))⟩
  have honce (name : String) : (kept.filter (·.1 = name)).length ≤ 1 := by
    have hcount := List.nodup_iff_count.1 (hnodup.sublist hkept.sublist) name
    rw [List.count_eq_length_filter, List.filter_map, List.length_map] at hcount
    simpa [Function.comp_def, beq_eq_decide] using hcount
  rw [members?, if_neg]
  simp only [List.any_eq_true, decide_eq_true_eq, not_exists, not_and]
  exact fun name _ => Nat.not_lt.2 (honce name)

end LiteralFill.Json
