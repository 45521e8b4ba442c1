import LiteralFill.Proofs.Printer.Condensed

namespace LiteralFill

/-- The leaves in their order, within a text of the printer each of whose newlines comes right after an
opening brace or a comma. -/
inductive BreaksSafely : List String → String → Prop where
  | plain {s : String} : '\n' ∉ s.toList → BreaksSafely [] s
  | leaf (text : String) : BreaksSafely [text] text
  | break {before : String} : before = "\x7b" ∨ before = "," → BreaksSafely [] (before ++ "\n")
  | append {leaves others : List String} {s t : String} :
    BreaksSafely leaves s → BreaksSafely others t → BreaksSafely (leaves ++ others) (s ++ t)

namespace BreaksSafely

variable {leaves others : List String} {s t : String}

theorem before (hs : '\n' ∉ s.toList) (h : BreaksSafely leaves t) : BreaksSafely leaves (s ++ t) :=
  (plain hs).append h

theorem after (h : BreaksSafely leaves s) (ht : '\n' ∉ t.toList) : BreaksSafely leaves (s ++ t) := by
  simpa only [List.append_nil] using h.append (plain ht)

theorem opener {before : String} (h : before = "\x7b" ∨ before = ",") : BreaksSafely [] before := by
  rcases h with rfl | rfl <;> exact .plain (by decide)

theorem newline {before : String} (h : before = "\x7b" ∨ before = ",") (indent : Nat) :
    BreaksSafely [] (before ++ newline indent) := by
  rw [LiteralFill.newline, ← String.append_assoc]
  refine (BreaksSafely.break h).after ?_
  rw [toList_repeated]
  intro hmem
  cases List.eq_of_mem_replicate hmem

end BreaksSafely

/-- Elements that show their leaves, however far their values are moved to the right. -/
inductive ShowsLeaves : List Cell → List String → Prop where
  | nil : ShowsLeaves [] []
  | cons {c : Cell} {cells : List Cell} {leaves others : List String} :
    (∀ blanks, BreaksSafely leaves (c.padded blanks)) → ShowsLeaves cells others →
      ShowsLeaves (c :: cells) (leaves ++ others)

namespace ShowsLeaves

theorem of_append {cells rest : List Cell} {leaves : List String}
    (h : ShowsLeaves (cells ++ rest) leaves) :
    ∃ mine others, leaves = mine ++ others ∧ ShowsLeaves cells mine ∧ ShowsLeaves rest others := by
  induction cells generalizing leaves with
  | nil => exact ⟨[], leaves, rfl, .nil, h⟩
  | cons c cells ih =>
    cases h with
    | cons hc hcells =>
      obtain ⟨mine, others, rfl, hmine, hothers⟩ := ih hcells
      exact ⟨_, others, (List.append_assoc _ _ _).symm, .cons hc hmine, hothers⟩

theorem breaksSafely_padded {c : Cell} {cells : List Cell} {leaves others : List String}
    (hc : ∀ blanks, BreaksSafely leaves (c.padded blanks)) (h : ShowsLeaves cells others)
    (blanks : Nat) :
    BreaksSafely (leaves ++ others) (", ".intercalate (c.padded blanks :: cells.map Cell.text)) := by
  induction h generalizing c leaves blanks with
  | nil =>
    rw [List.map_nil, String.intercalate_singleton, List.append_nil]
    exact hc blanks
  | @cons c' cells _ _ hc' _ ih =>
    rw [List.map_cons, String.intercalate_cons_of_ne_nil (List.cons_ne_nil _ _), c'.text_eq_padded]
    exact ((hc blanks).after (by decide)).append (ih hc' 1)

theorem breaksSafely_intercalate {cells : List Cell} {leaves : List String}
    (h : ShowsLeaves cells leaves) :
    BreaksSafely leaves (", ".intercalate (cells.map Cell.text)) := by
  cases h with
  | nil => exact .plain (by decide)
  | @cons c _ _ _ hc hcells =>
    rw [List.map_cons, c.text_eq_padded]
    exact breaksSafely_padded hc hcells 1

/-- Before a row stands the brace or the comma that allows it to start a line. -/
theorem breaksSafely_write {e : Placed} {rest : List Placed} {leaves : List String}
    (h : ShowsLeaves ((e :: rest).map (·.cell)) leaves) {before : String}
    (hbefore : before = "\x7b" ∨ before = ",") (indent width : Nat) (many : Bool) :
    BreaksSafely leaves (before ++ (Row.ofGroup many (e :: rest)).write indent width) := by
  obtain ⟨blanks, hrow⟩ := Row.exists_write indent width many e rest
  have hstart : BreaksSafely [] (before ++ if e.breaks then newline (indent + 1) else "") := by
    split
    · exact .newline hbefore _
    · rw [String.append_empty]
      exact .opener hbefore
  rw [hrow, ← String.append_assoc]
  cases h with
  | cons hc hcells =>
    have hrest := breaksSafely_padded hc hcells blanks
    rw [List.map_map] at hrest
    exact hstart.append hrest

theorem breaksSafely_rows {groups : List (List Placed)} {leaves : List String}
    (h : ShowsLeaves (groups.flatten.map (·.cell)) leaves) (hgroups : ∀ group ∈ groups, group ≠ [])
    {before : String} (hbefore : before = "\x7b" ∨ before = ",") (indent : Nat) (many : Bool)
    {widths : List Nat} (hwidths : widths.length = groups.length) :
    BreaksSafely leaves (before ++
      ",".intercalate (List.zipWith (Row.write indent) (groups.map (Row.ofGroup many)) widths)) := by
  -- the comma that ends a row is what allows the next one to start a line
  induction groups generalizing widths leaves before with
  | nil =>
    cases h
    rw [List.map_nil, List.zipWith_nil_left, String.intercalate_nil, String.append_empty]
    exact .opener hbefore
  | cons group groups ih =>
    obtain ⟨width, widths, rfl⟩ := List.exists_cons_of_length_eq_add_one hwidths
    replace hwidths : widths.length = groups.length := Nat.succ.inj hwidths
    obtain ⟨hgroup, hrest⟩ := List.forall_mem_cons.1 hgroups
    obtain ⟨e, rest, rfl⟩ := List.exists_cons_of_ne_nil hgroup
    rw [List.flatten_cons, List.map_append] at h
    obtain ⟨mine, others, rfl, hmine, hothers⟩ := h.of_append
    have hrow := breaksSafely_write hmine hbefore indent width many
    cases groups with
    | nil =>
      obtain rfl := List.eq_nil_of_length_eq_zero hwidths
      cases hothers
      simpa using hrow
    | cons group' groups =>
      obtain ⟨width', widths, rfl⟩ := List.exists_cons_of_length_eq_add_one hwidths
      rw [List.map_cons, List.zipWith_cons_cons, String.intercalate_cons_of_ne_nil (by simp),
        String.append_assoc, ← String.append_assoc]
      exact hrow.append (ih hothers hrest (.inr rfl) hwidths)

theorem breaksSafely_brokenList {cells : List Cell} {leaves : List String}
    (h : ShowsLeaves cells leaves) (b : Braces) (indent : Nat) :
    BreaksSafely leaves ("\x7b" ++ brokenList b indent cells) := by
  obtain ⟨groups, widths, closes, hlist, hgroups, hwidths, rfl⟩ := exists_brokenList_eq b indent cells
  have hclose : BreaksSafely [] (if closes then "," ++ newline indent else "") := by
    cases closes with
    | true => exact .newline (.inr rfl) indent
    | false => exact .plain (s := "") (by decide)
  rw [hlist, ← String.append_assoc, ← List.append_nil leaves]
  exact (breaksSafely_rows h hgroups (.inl rfl) indent _ hwidths).append hclose

end ShowsLeaves

end LiteralFill
