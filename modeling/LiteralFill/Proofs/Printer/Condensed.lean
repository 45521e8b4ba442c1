import LiteralFill.Proofs.Printer.Rows

namespace LiteralFill

/-- Blanks, tabs and newlines. -/
def isSpace (c : Char) : Bool := c ∈ [' ', '\t', '\n']

/-- Drops every comma directly before a closing brace. -/
def dropCommas : List Char → List Char
  | [] => []
  | c :: rest =>
    if c = ',' ∧ rest.head? = some '\x7d' then dropCommas rest else c :: dropCommas rest

/-- What is left of a text without its layout. -/
def condensed (s : String) : List Char := dropCommas (s.toList.filter (!isSpace ·))

/-- Texts that differ in their layout only, whatever stands around them. -/
def Alike (s t : String) : Prop :=
  ∀ before after, condensed (before ++ s ++ after) = condensed (before ++ t ++ after)

/-- A text that ends neither in a comma nor in a blank. -/
def EndsFirm (s : String) : Prop := s.toList.getLast?.any fun c => c ≠ ',' && !isSpace c

instance (s : String) : Decidable (EndsFirm s) := inferInstanceAs (Decidable (_ = true))

theorem EndsFirm.exists_last {s : String} (h : EndsFirm s) :
    ∃ first last, s.toList = first ++ [last] ∧ last ≠ ',' ∧ isSpace last = false := by
  obtain ⟨last, hlast, hfirm⟩ := (Option.any_eq_true _ _).1 h
  obtain ⟨first, hs⟩ := List.getLast?_eq_some_iff.1 hlast
  obtain ⟨hcomma, hspace⟩ := Bool.and_eq_true_iff.1 hfirm
  exact ⟨first, last, hs, of_decide_eq_true hcomma, Bool.not_eq_eq_eq_not.mp hspace⟩

theorem EndsFirm.append (s : String) {t : String} (h : EndsFirm t) : EndsFirm (s ++ t) := by
  obtain ⟨first, last, ht, -⟩ := h.exists_last
  rw [EndsFirm, ht, List.getLast?_concat] at h
  rwa [EndsFirm, String.toList_append, ht, ← List.append_assoc, List.getLast?_concat]

theorem dropCommas_append_comma {c : Char} (hc : c ≠ ',') (s t : List Char) :
    dropCommas (s ++ c :: ',' :: '\x7d' :: t) = dropCommas (s ++ c :: '\x7d' :: t) := by
  induction s with
  | nil =>
    have hclose : dropCommas (',' :: '\x7d' :: t) = dropCommas ('\x7d' :: t) := if_pos ⟨rfl, rfl⟩
    have hcons : ∀ rest, dropCommas (c :: rest) = c :: dropCommas rest := fun _ =>
      if_neg fun h => hc h.1
    rw [List.nil_append, List.nil_append, hcons, hcons, hclose]
  | cons d s ih =>
    have hhead : (s ++ c :: ',' :: '\x7d' :: t).head? = (s ++ c :: '\x7d' :: t).head? := by
      cases s <;> rfl
    rw [List.cons_append, List.cons_append, dropCommas, dropCommas, hhead, ih]

namespace Alike

variable {s t u s' t' : String}

theorem refl (s : String) : Alike s s := fun _ _ => rfl

theorem symm (h : Alike s t) : Alike t s := fun before after => (h before after).symm

theorem trans (h : Alike s t) (h' : Alike t u) : Alike s u :=
  fun before after => (h before after).trans (h' before after)

theorem append (h : Alike s t) (h' : Alike s' t') : Alike (s ++ s') (t ++ t') := by
  intro before after
  calc condensed (before ++ (s ++ s') ++ after)
      = condensed (before ++ s ++ (s' ++ after)) := by simp only [String.append_assoc]
    _ = condensed (before ++ t ++ (s' ++ after)) := h before (s' ++ after)
    _ = condensed (before ++ t ++ s' ++ after) := by simp only [String.append_assoc]
    _ = condensed (before ++ t ++ t' ++ after) := h' (before ++ t) after
    _ = condensed (before ++ (t ++ t') ++ after) := by simp only [String.append_assoc]

theorem condensed_eq (h : Alike s t) : condensed s = condensed t := by
  simpa only [String.empty_append, String.append_empty] using h "" ""

theorem spaces (h : s.toList.all isSpace = true) : Alike s "" := by
  have hfilter : s.toList.filter (!isSpace ·) = [] := by
    rw [List.filter_eq_nil_iff]
    intro c hc
    rw [List.all_eq_true.1 h c hc]
    exact Bool.false_ne_true
  intro before after
  simp only [condensed, String.toList_append, List.filter_append, hfilter, String.append_empty,
    List.append_nil]

theorem spaces_append (h : s.toList.all isSpace = true) (t : String) : Alike (s ++ t) t := by
  simpa only [String.empty_append] using (spaces h).append (refl t)

theorem append_spaces (h : s.toList.all isSpace = true) (t : String) : Alike (t ++ s) t := by
  simpa only [String.append_empty] using (refl t).append (spaces h)

/-- Whether a comma follows the last element of a literal makes no difference. -/
theorem comma (h : EndsFirm s) : Alike (s ++ "," ++ "\x7d") (s ++ "\x7d") := by
  obtain ⟨first, last, hs, hcomma, hspace⟩ := h.exists_last
  intro before after
  have hwith : (before ++ (s ++ "," ++ "\x7d") ++ after).toList =
      (before.toList ++ first) ++ last :: ',' :: '\x7d' :: after.toList := by
    simp only [String.toList_append, hs, List.append_assoc, List.singleton_append]
    rfl
  have hwithout : (before ++ (s ++ "\x7d") ++ after).toList =
      (before.toList ++ first) ++ last :: '\x7d' :: after.toList := by
    simp only [String.toList_append, hs, List.append_assoc, List.singleton_append]
    rfl
  have hfilter : ∀ rest : List Char, (last :: rest).filter (!isSpace ·) =
      last :: rest.filter (!isSpace ·) := fun _ => List.filter_cons_of_pos (by rw [hspace]; rfl)
  rw [condensed, condensed, hwith, hwithout, List.filter_append, hfilter, List.filter_append _ (_ :: _),
    hfilter]
  exact dropCommas_append_comma hcomma _ _

theorem intercalate {sep sep' : String} (hsep : Alike sep sep') {xs ys : List String}
    (h : List.Forall₂ Alike xs ys) : Alike (sep.intercalate xs) (sep'.intercalate ys) := by
  induction h with
  | nil => exact refl ""
  | cons hx hrest ih =>
    cases hrest with
    | nil => simpa only [String.intercalate_singleton] using hx
    | cons _ _ =>
      rw [String.intercalate_cons_cons, String.intercalate_cons_cons]
      exact (hx.append hsep).append ih

end Alike

theorem all_isSpace_repeated {c : Char} (h : isSpace c = true) (n : Nat) :
    (repeated c n).toList.all isSpace = true := by
  rw [toList_repeated, List.all_replicate, h]
  split <;> rfl

theorem all_isSpace_newline (n : Nat) : (newline n).toList.all isSpace = true := by
  rw [newline, String.toList_append, List.all_append, all_isSpace_repeated rfl]
  rfl

/-- The elements of a literal with bare commas between them. -/
def joined (cells : List Cell) : String := ",".intercalate (cells.map Cell.text)

theorem joined_append {cells rest : List Cell} (h : cells ≠ []) (h' : rest ≠ []) :
    joined (cells ++ rest) = joined cells ++ "," ++ joined rest := by
  rw [joined, List.map_append]
  exact String.intercalate_append_of_ne_nil (mt List.map_eq_nil_iff.1 h) (mt List.map_eq_nil_iff.1 h')

theorem alike_comma_blank : Alike ", " "," := by
  have hcomma : ", " = "," ++ " " := by decide
  rw [hcomma]
  exact .append_spaces (by decide) ","

theorem alike_intercalate_text (cells : List Cell) :
    Alike (", ".intercalate (cells.map Cell.text)) (joined cells) :=
  alike_comma_blank.intercalate (List.forall₂_same.2 fun s _ => .refl s)

theorem Cell.alike_padded (c : Cell) (blanks : Nat) : Alike (c.padded blanks) c.text := by
  rw [Cell.text_eq_padded]
  unfold padded
  cases c.key? with
  | none => exact .refl _
  | some key =>
    have hblanks : ∀ n, Alike (key ++ ":" ++ repeated ' ' n) (key ++ ":") := fun n =>
      .append_spaces (all_isSpace_repeated rfl n) _
    exact ((hblanks blanks).trans (hblanks 1).symm).append (.refl c.value)

/-- A row shows its elements, however its key is padded. -/
theorem Row.alike_write (indent width : Nat) (many : Bool) (e : Placed) (rest : List Placed) :
    Alike ((Row.ofGroup many (e :: rest)).write indent width) (joined ((e :: rest).map (·.cell))) := by
  obtain ⟨blanks, hrow⟩ := Row.exists_write indent width many e rest
  have hbreak : Alike (if e.breaks then newline (indent + 1) else "") "" := by
    split
    · exact .spaces (all_isSpace_newline _)
    · exact .refl ""
  have hcells : Alike (", ".intercalate (e.cell.padded blanks :: rest.map (·.cell.text)))
      (",".intercalate (e.cell.text :: rest.map (·.cell.text))) :=
    alike_comma_blank.intercalate
      (.cons (e.cell.alike_padded blanks) (List.forall₂_same.2 fun s _ => .refl s))
  have hrow' := hbreak.append hcells
  rw [String.empty_append] at hrow'
  rwa [hrow, joined, List.map_map, List.map_cons]

theorem alike_rows (indent : Nat) (many : Bool) {groups : List (List Placed)} {widths : List Nat}
    (hgroups : ∀ group ∈ groups, group ≠ []) (hwidths : widths.length = groups.length) :
    Alike (",".intercalate (List.zipWith (Row.write indent) (groups.map (Row.ofGroup many)) widths))
      (joined (groups.flatten.map (·.cell))) := by
  induction groups generalizing widths with
  | nil => exact .refl ""
  | cons group groups ih =>
    obtain ⟨width, widths, rfl⟩ := List.exists_cons_of_length_eq_add_one hwidths
    replace hwidths : widths.length = groups.length := Nat.succ.inj hwidths
    obtain ⟨hgroup, hrest⟩ := List.forall_mem_cons.1 hgroups
    obtain ⟨e, rest, rfl⟩ := List.exists_cons_of_ne_nil hgroup
    have hrow := Row.alike_write indent width many e rest
    cases groups with
    | nil =>
      obtain rfl := List.eq_nil_of_length_eq_zero hwidths
      simpa using hrow
    | cons group' groups =>
      obtain ⟨width', widths, rfl⟩ := List.exists_cons_of_length_eq_add_one hwidths
      have hne : group' ≠ [] := hrest group' List.mem_cons_self
      rw [List.flatten_cons, List.map_append, joined_append (by simp) (by simp [hne])]
      rw [List.map_cons, List.zipWith_cons_cons, String.intercalate_cons_of_ne_nil (by simp)]
      exact (hrow.append (.refl ",")).append (ih hrest hwidths)

theorem endsFirm_joined {cells : List Cell} (hne : cells ≠ []) (h : ∀ c ∈ cells, EndsFirm c.text) :
    EndsFirm (joined cells) := by
  induction cells with
  | nil => exact absurd rfl hne
  | cons c cells ih =>
    cases cells with
    | nil => simpa [joined] using h
    | cons c' cells =>
      rw [← List.singleton_append, joined_append (List.cons_ne_nil _ _) (List.cons_ne_nil _ _)]
      exact (ih (List.cons_ne_nil _ _) fun c hc => h c (List.mem_cons_of_mem _ hc)).append _

/-- However the lines of a literal are broken, its elements stand in it as if they stood on one. -/
theorem alike_brokenList (b : Braces) (indent : Nat) {cells : List Cell} (hne : cells ≠ [])
    (h : ∀ c ∈ cells, EndsFirm c.text) :
    Alike (brokenList b indent cells ++ "\x7d") (joined cells ++ "\x7d") := by
  obtain ⟨groups, widths, closes, hlist, hgroups, hwidths, hcells⟩ :=
    exists_brokenList_eq b indent cells
  -- only the comma before a closing brace on a line of its own has no counterpart
  have hrows := alike_rows indent (1 < cells.length) hgroups hwidths
  rw [hcells] at hrows
  have hclose : Alike (joined cells ++ (if closes then "," ++ newline indent else "") ++ "\x7d")
      (joined cells ++ "\x7d") := by
    cases closes with
    | true =>
      have hnewline : Alike (joined cells ++ ("," ++ newline indent)) (joined cells ++ ",") :=
        (Alike.refl _).append (.append_spaces (all_isSpace_newline indent) ",")
      exact (hnewline.append (.refl _)).trans (.comma (endsFirm_joined hne h))
    | false =>
      rw [if_neg Bool.false_ne_true, String.append_empty]
      exact .refl _
  rw [hlist]
  exact ((hrows.append (.refl _)).append (.refl _)).trans hclose

end LiteralFill
