import LiteralFill.Proofs.Index.Omits

namespace LiteralFill.Json

variable {α β : Type} {read : Nat → Json → Option α} {j : Json} {a : α}

/-- Whatever is left out of the document, the value is read from it, if it is not nested too deep. -/
def Decodes (read : Nat → Json → Option α) (j : Json) (a : α) : Prop :=
  ∀ depth j', j.Omits j' → j'.depth ≤ depth → read depth j' = some a

theorem decodes_string (s : String) : Decodes (fun _ => string?) (.str s) s := by
  intro depth j' hj _
  cases hj
  rfl

theorem decodes_bool (b : Bool) : Decodes (fun _ => bool?) (.bool b) b := by
  intro depth j' hj _
  cases hj
  rfl

theorem decodes_nat {bits n : Nat} (h : n < Nat.pow 2 bits) : Decodes (fun _ => nat? bits) (.nat n) n := by
  intro depth j' hj _
  cases hj
  exact if_pos h

theorem decodes_alternative {ofTag? : String → Option α} {tag : String} (h : ofTag? tag = some a) :
    Decodes (fun depth j => (alternative? depth j).bind ofTag?) (.str tag) a := by
  intro depth j' hj _
  cases hj
  exact h

theorem Decodes.map (h : Decodes read j a) (f : α → β) :
    Decodes (fun depth j => (read depth j).map f) j (f a) :=
  fun depth j' hj hdepth => congrArg (Option.map f) (h depth j' hj hdepth)

/-- A name with a content, where reading the whole is reading the content. -/
theorem Decodes.tagged {whole : Nat → Json → Option α} {tag : String} (h : Decodes read j a)
    (hwhole : ∀ depth content, whole (depth + 1) (.obj [(tag, content)]) = read depth content)
    (hdefault : defaultOf? tag ≠ some j) : Decodes whole (.obj [(tag, j)]) a := by
  intro depth j' hj hdepth
  obtain ⟨kept, rfl, hkept⟩ := hj.of_obj
  cases hkept with
  | leave hleft _ => exact absurd hleft hdefault
  | keep hcontent hrest =>
    cases hrest
    obtain ⟨d, rfl⟩ : ∃ d, depth = d + 1 := ⟨depth - 1, by rw [Json.depth] at hdepth; omega⟩
    rw [hwhole]
    refine h d _ hcontent ?_
    simpa only [Json.depth, membersDepth, Nat.max_zero, Nat.add_le_add_iff_right] using hdepth

/-- Items are read one by one. -/
theorem Decodes.list {write : α → Json} {as : List α} (h : ∀ a ∈ as, Decodes read (write a) a) :
    Decodes (list? read) (.arr (as.map write)) as := by
  intro depth j' hj hdepth
  obtain ⟨items, rfl, hitems⟩ := hj.of_arr
  obtain ⟨d, rfl⟩ : ∃ d, depth = d + 1 := ⟨depth - 1, by rw [Json.depth] at hdepth; omega⟩
  replace hdepth : itemsDepth items ≤ d := Nat.le_of_succ_le_succ hdepth
  change items.mapM (read d) = some as
  clear hj
  induction as generalizing items with
  | nil =>
    cases hitems
    rfl
  | cons a rest ih =>
    cases hitems with
    | cons hitem hrest =>
      obtain ⟨hbound, hbounds⟩ := Nat.max_le.1 hdepth
      obtain ⟨ha, has⟩ := List.forall_mem_cons.1 h
      rw [List.mapM_cons, ha d _ hitem hbound, ih has _ hrest hbounds]
      rfl

namespace Survives

variable {depth : Nat} {name : String} {value : Option Json}

/-- A member that never holds a default is there to be read. -/
theorem required (h : Survives depth (name, j) value) (hread : Decodes read j a)
    (hdefault : defaultOf? name ≠ some j) : ∃ j', value = some j' ∧ read depth j' = some a := by
  cases h with
  | left hleft => exact absurd hleft hdefault
  | stays hj hdepth => exact ⟨_, rfl, hread depth _ hj hdepth⟩

theorem orDefault {default : α} (h : Survives depth (name, j) value) (hread : Decodes read j a)
    (hdefault : defaultOf? name = some j → a = default) :
    Json.orDefault default (read depth) value = some a := by
  cases h with
  | left hleft => exact congrArg some (hdefault hleft).symm
  | stays hj hdepth => exact hread depth _ hj hdepth

theorem readPos {pos : Nat} (h : Survives depth (name, posJson pos) value)
    (hname : defaultOf? name = some (posJson noPos)) (hpos : pos < Nat.pow 2 32) :
    readPos? value = some pos :=
  h.orDefault (decodes_nat hpos) fun hleft => (Json.nat.inj (Option.some.inj (hname.symm.trans hleft))).symm

theorem flag {b : Bool} (h : Survives depth (name, .bool b) value)
    (hname : defaultOf? name = some (.bool false)) : Json.orDefault false bool? value = some b :=
  h.orDefault (decodes_bool b) fun hleft => (Json.bool.inj (Option.some.inj (hname.symm.trans hleft))).symm

theorem list {write : α → Json} {items : List Json} {as : List α}
    (h : Survives depth (name, .arr items) value) (hitems : items = as.map write)
    (hname : defaultOf? name = some (.arr [])) (hread : ∀ a ∈ as, Decodes read (write a) a) :
    Json.orDefault [] (list? read depth) value = some as := by
  subst hitems
  exact h.orDefault (.list hread) fun hleft =>
    List.map_eq_nil_iff.1 (Json.arr.inj (Option.some.inj (hname.symm.trans hleft))).symm

theorem orNull {write : α → Json} {a? : Option α} (h : Survives depth (name, j) value)
    (hj : j = ofOption write a?) (hname : defaultOf? name = some .null)
    (hread : ∀ a ∈ a?, Decodes read (write a) a) (hnull : ∀ a, write a ≠ .null) :
    Json.orNull (read depth) value = some a? := by
  subst hj
  cases a? with
  | none =>
    cases h with
    | left _ => rfl
    | stays hj _ =>
      cases hj
      rfl
  | some a =>
    cases h with
    | left hleft => exact absurd (Option.some.inj (hname.symm.trans hleft)).symm (hnull a)
    | stays hj hdepth =>
      rw [Json.orNull.eq_3 _ _ (Omits.ne_null hj (hnull a)), hread a rfl depth _ hj hdepth, Option.map_some]

end Survives

end LiteralFill.Json
