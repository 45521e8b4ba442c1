import LiteralFill.Proofs.Printer.Rows

namespace LiteralFill

theorem le_foldl_max {xs : List Nat} {x : Nat} (h : x ∈ xs) : x ≤ xs.foldl max 0 := by
  rw [List.foldl_max]
  exact Nat.le_trans (List.le_max?_getD_of_mem h) (Nat.le_max_right _ _)

theorem foldl_max_map_succ {xs : List Nat} (h : xs ≠ []) :
    (xs.map (· + 1)).foldl max 0 = xs.foldl max 0 + 1 := by
  obtain ⟨x, xs, rfl⟩ := List.exists_cons_of_ne_nil h
  rw [List.map_cons, List.foldl_cons, List.foldl_cons, Nat.zero_max, Nat.zero_max, List.foldl_map]
  exact List.foldl_hom (· + 1) fun x y => Nat.succ_max_succ x y

/-- A key and its value on a single line. -/
def Cell.IsEntry (c : Cell) : Prop := c.key?.isSome = true ∧ '\n' ∉ c.text.toList

instance (c : Cell) : Decidable c.IsEntry := inferInstanceAs (Decidable (_ ∧ _))

def Cell.keyLength (c : Cell) : Nat := (c.key?.map String.length).getD 0

/-- The longest key among elements. -/
def maxKeyLength (cells : List Cell) : Nat := (cells.map Cell.keyLength).foldl max 0

theorem Cell.keyLength_le {c : Cell} {cells : List Cell} (h : c ∈ cells) :
    c.keyLength ≤ maxKeyLength cells := le_foldl_max (List.mem_map_of_mem h)

theorem Cell.size_of_isEntry {c : Cell} (h : c.IsEntry) : c.size = c.keyLength := by
  obtain ⟨hkey, hline⟩ := h
  obtain ⟨key, hkey⟩ := Option.isSome_iff_exists.1 hkey
  rw [size, String.contains_char_eq, decide_eq_false hline, if_neg Bool.false_ne_true, keyLength, hkey]
  rfl

theorem Cell.key?_eq_none_or_size_eq_zero {c : Cell} (h : ¬c.IsEntry) : c.key? = none ∨ c.size = 0 := by
  cases hkey : c.key? with
  | none => exact .inl rfl
  | some key =>
    right
    have hline : '\n' ∈ c.text.toList := by
      by_contra hline
      exact h ⟨by rw [hkey]; rfl, hline⟩
    rw [size, String.contains_char_eq, decide_eq_true hline, if_pos rfl]

/-- A maximal run of entries among the elements of a list. -/
structure IsRun (before run after : List Cell) : Prop where
  entries : ∀ c ∈ run, c.IsEntry
  last_before : ∀ c ∈ before.getLast?, ¬c.IsEntry
  head_after : ∀ c ∈ after.head?, ¬c.IsEntry

/-- The row of an element that is alone on its line. -/
def Placed.row (many : Bool) (e : Placed) : Row := Row.ofGroup many [e]

/-- The blanks behind the keys of elements that are each alone on a line. -/
def columnBlanks (many : Bool) (placed : List Placed) : List Nat :=
  List.zipWith Row.blanks (placed.map (Placed.row many)) (keyWidths (placed.map (Placed.row many)))

namespace Placed

theorem key?_row {e : Placed} (hbreaks : e.breaks = true) (hsize : 0 < e.size) :
    (e.row true).key? = e.cell.key?.map (· ++ ":") := by
  simp only [row, Row.ofGroup, hbreaks, hsize, decide_true, Bool.and_self, if_true]

theorem key?_row_of_not_isEntry {e : Placed} (hsize : e.size = e.cell.size) (h : ¬e.cell.IsEntry)
    (many : Bool) : (e.row many).key? = none := by
  simp only [row, Row.ofGroup, hsize]
  rcases Cell.key?_eq_none_or_size_eq_zero h with hkey | hzero
  · rw [hkey, ite_self]
    rfl
  · simp only [hzero, Nat.lt_irrefl, decide_false, Bool.and_false, Bool.false_and,
      Bool.false_eq_true, if_false, Option.map_none]

end Placed

theorem Row.sharesColumn_eq_false {r r' : Row} (h : r.key? = none ∨ r'.key? = none) :
    r.sharesColumn r' = false := by
  rcases h with h | h <;> simp [sharesColumn, h]

theorem size_of_mem_placeCells {p : Progress} {cells : List Cell} :
    ∀ e ∈ placeCells true p cells, e.size = e.cell.size := by
  induction cells generalizing p with
  | nil => nofun
  | cons c cells ih => exact List.forall_mem_cons.2 ⟨rfl, ih⟩

theorem placeCells_append (measured : Bool) (p : Progress) (cells cells' : List Cell) :
    ∃ p', placeCells measured p (cells ++ cells') =
      placeCells measured p cells ++ placeCells measured p' cells' := by
  induction cells generalizing p with
  | nil => exact ⟨p, rfl⟩
  | cons c cells ih =>
    obtain ⟨p', h⟩ := ih (p.after (p.next measured c))
    exact ⟨p', congrArg (_ :: ·) h⟩

theorem sizesDiffer_of_le_smallKey {size size' : Nat} (h : 0 < size ∧ size ≤ smallKey)
    (h' : 0 < size' ∧ size' ≤ smallKey) (above : List Nat) : sizesDiffer above size size' = false := by
  simp [sizesDiffer, h, h', Nat.ne_of_gt h.1, Nat.ne_of_gt h'.1]

theorem Progress.sectionNo_next {p : Progress} {c : Cell} (hbroke : p.broke = true)
    (hdiffer : sizesDiffer p.above p.size c.size = false) : (p.next true c).sectionNo = p.sectionNo := by
  simp only [next, if_true, hbroke, hdiffer, Bool.not_false, Bool.and_self, Bool.not_true,
    Bool.and_false, Bool.false_eq_true, if_false]

/-- Elements below each other whose keys are not too long stay in one section. -/
theorem isChain_sectionNo {p : Progress} {cells : List Cell}
    (hbreaks : ∀ e ∈ placeCells true p cells, e.breaks = true)
    (hsize : ∀ c ∈ cells, 0 < c.size ∧ c.size ≤ smallKey) :
    (placeCells true p cells).IsChain fun e e' => e.sectionNo = e'.sectionNo := by
  induction cells generalizing p with
  | nil => exact .nil
  | cons c cells ih =>
    cases cells with
    | nil => exact .singleton _
    | cons c' cells =>
      obtain ⟨hc, hcells⟩ := List.forall_mem_cons.1 hsize
      obtain ⟨he, hrest⟩ := List.forall_mem_cons.1 hbreaks
      refine .cons_cons ?_ (ih hrest hcells)
      have hdiffer := sizesDiffer_of_le_smallKey hc (List.forall_mem_cons.1 hcells).1
        (p.after (p.next true c)).above
      exact (Progress.sectionNo_next (p := p.after (p.next true c)) he hdiffer).symm

/-- An element that is measured by its key, with the key in a column of its own. -/
structure Placed.Keyed (e : Placed) : Prop where
  breaks : e.breaks = true
  entry : e.cell.IsEntry
  size_eq : e.size = e.cell.keyLength
  size_pos : 0 < e.size

namespace Placed.Keyed

variable {e : Placed}

theorem exists_key?_row (h : e.Keyed) : ∃ key, e.cell.key? = some key ∧
    (e.row true).key? = some (key ++ ":") := by
  obtain ⟨key, hkey⟩ := Option.isSome_iff_exists.1 h.entry.1
  exact ⟨key, hkey, by rw [key?_row h.breaks h.size_pos, hkey]; rfl⟩

theorem keyWidth_row (h : e.Keyed) : (e.row true).keyWidth = e.cell.keyLength + 1 := by
  obtain ⟨key, hkey, hrow⟩ := h.exists_key?_row
  rw [Row.keyWidth, hrow, Cell.keyLength, hkey, Option.map_some, Option.getD_some, Option.map_some,
    Option.getD_some, String.length_append]
  rfl

theorem blanks_row (h : e.Keyed) (width : Nat) :
    (e.row true).blanks (width + 1) = width - e.cell.keyLength + 1 := by
  obtain ⟨key, hkey, hrow⟩ := h.exists_key?_row
  rw [Row.blanks, hrow, Cell.keyLength, hkey, Option.map_some, Option.getD_some]
  dsimp only
  rw [String.length_append]
  exact congrArg (· + 1) (Nat.add_sub_add_right width 1 key.length)

end Placed.Keyed

section Keyed

variable {placed : List Placed}

theorem isChain_sharesColumn (h : ∀ e ∈ placed, e.Keyed)
    (hsections : placed.IsChain fun e e' => e.sectionNo = e'.sectionNo) :
    (placed.map (Placed.row true)).IsChain fun r r' => r.sharesColumn r' = true := by
  rw [List.isChain_map]
  rw [List.isChain_iff_getElem] at hsections ⊢
  intro i hi
  obtain ⟨key, -, hkey⟩ := (h _ (List.getElem_mem (Nat.lt_of_succ_lt hi))).exists_key?_row
  obtain ⟨key', -, hkey'⟩ := (h _ (List.getElem_mem hi)).exists_key?_row
  have hsection : (placed[i].row true).sectionNo = (placed[i + 1].row true).sectionNo := hsections i hi
  rw [Row.sharesColumn, hkey, hkey', hsection]
  exact beq_self_eq_true _

theorem maxKeyWidth_map_row (h : ∀ e ∈ placed, e.Keyed) (hne : placed ≠ []) :
    maxKeyWidth (placed.map (Placed.row true)) = maxKeyLength (placed.map (·.cell)) + 1 := by
  have hwidths : (placed.map (Placed.row true)).map Row.keyWidth =
      ((placed.map (·.cell)).map Cell.keyLength).map (· + 1) := by
    simp only [List.map_map]
    exact List.map_congr_left fun e he => (h e he).keyWidth_row
  rw [maxKeyWidth, hwidths, foldl_max_map_succ (by simpa using hne), maxKeyLength]

/-- Elements that share a column have their values two characters behind the longest key. -/
theorem columnBlanks_of_keyed (h : ∀ e ∈ placed, e.Keyed)
    (hsections : placed.IsChain fun e e' => e.sectionNo = e'.sectionNo) :
    columnBlanks true placed =
      (placed.map (·.cell)).map fun c => maxKeyLength (placed.map (·.cell)) - c.keyLength + 1 := by
  by_cases hne : placed = []
  · rw [hne]
    rfl
  · rw [columnBlanks, keyWidths_of_isChain (isChain_sharesColumn h hsections),
      maxKeyWidth_map_row h hne, List.zipWith_map_right, List.zipWith_self, List.map_map, List.map_map]
    exact List.map_congr_left fun e he => (h e he).blanks_row _

end Keyed

theorem columnBlanks_append {many : Bool} {placed placed' : List Placed}
    (h : ∀ e ∈ placed.getLast?, ∀ e' ∈ placed'.head?,
      (e.row many).key? = none ∨ (e'.row many).key? = none) :
    columnBlanks many (placed ++ placed') = columnBlanks many placed ++ columnBlanks many placed' := by
  have hrows : ∀ r ∈ (placed.map (Placed.row many)).getLast?,
      ∀ r' ∈ (placed'.map (Placed.row many)).head?, r.sharesColumn r' = false := by
    rw [List.getLast?_map, List.head?_map]
    intro r hr r' hr'
    obtain ⟨e, he, rfl⟩ := Option.map_eq_some_iff.1 hr
    obtain ⟨e', he', rfl⟩ := Option.map_eq_some_iff.1 hr'
    exact Row.sharesColumn_eq_false (h e he e' he')
  rw [columnBlanks, List.map_append, keyWidths_append hrows,
    List.zipWith_append (length_keyWidths _).symm, columnBlanks, columnBlanks]

theorem columnBlanks_singleton {many : Bool} {e : Placed} (h : (e.row many).key? = none) :
    columnBlanks many [e] = [1] := by
  obtain ⟨width, hwidth⟩ := List.length_eq_one_iff.1 (length_keyWidths [e.row many])
  rw [columnBlanks, List.map_singleton, hwidth, List.zipWith_cons_cons, List.zipWith_nil_right, Row.blanks, h]

@[simp] theorem length_columnBlanks (many : Bool) (placed : List Placed) :
    (columnBlanks many placed).length = placed.length := by
  simp only [columnBlanks, List.length_zipWith, length_keyWidths, List.length_map, Nat.min_self]

/-- An element alone in its list has no column. -/
theorem columnBlanks_false (placed : List Placed) :
    columnBlanks false placed = List.replicate placed.length 1 := by
  induction placed with
  | nil => rfl
  | cons e placed ih =>
    have hkey (e : Placed) : (e.row false).key? = none := by simp [Placed.row, Row.ofGroup]
    rw [← List.singleton_append, columnBlanks_append fun e _ e' _ => .inl (hkey e),
      columnBlanks_singleton (hkey e), ih, List.length_append, List.replicate_add]
    rfl

section Cells

variable {p : Progress} {cells before after : List Cell}

/-- An element that is no entry, or has several lines, is not moved. -/
theorem columnBlanks_of_not_isEntry {c : Cell} (many : Bool) (hcells : cells = before ++ c :: after)
    (hc : ¬c.IsEntry) : ∃ bs bs', bs.length = before.length ∧
      columnBlanks many (placeCells true p cells) = bs ++ 1 :: bs' := by
  obtain ⟨p', hplaced⟩ := placeCells_append true p before (c :: after)
  have hkey : ((p'.next true c).row many).key? = none := Placed.key?_row_of_not_isEntry rfl hc many
  refine ⟨columnBlanks many (placeCells true p before), columnBlanks many
    (placeCells true (p'.after (p'.next true c)) after), ?_, ?_⟩
  · rw [length_columnBlanks, length_placeCells]
  · rw [hcells, hplaced, columnBlanks_append fun e _ e' he' => .inr ?_, placeCells,
      ← List.singleton_append, columnBlanks_append fun e he e' _ => .inl ?_,
      columnBlanks_singleton hkey]
    · rfl
    · cases he
      exact hkey
    · cases he'
      exact hkey

theorem mem_of_mem_placeCells {e : Placed} (h : e ∈ placeCells true p cells) : e.cell ∈ cells := by
  rw [← map_cell_placeCells true p cells]
  exact List.mem_map_of_mem h

theorem key?_row_of_mem_head? {e : Placed} (h : ∀ c ∈ cells.head?, ¬c.IsEntry)
    (he : e ∈ (placeCells true p cells).head?) : (e.row true).key? = none := by
  refine Placed.key?_row_of_not_isEntry (size_of_mem_placeCells e (List.mem_of_mem_head? he))
    (h e.cell ?_) true
  rw [← map_cell_placeCells true p cells, List.head?_map]
  exact congrArg (Option.map Placed.cell) he

theorem key?_row_of_mem_getLast? {e : Placed} (h : ∀ c ∈ cells.getLast?, ¬c.IsEntry)
    (he : e ∈ (placeCells true p cells).getLast?) : (e.row true).key? = none := by
  refine Placed.key?_row_of_not_isEntry (size_of_mem_placeCells e (List.mem_of_mem_getLast? he))
    (h e.cell ?_) true
  rw [← map_cell_placeCells true p cells, List.getLast?_map]
  exact congrArg (Option.map Placed.cell) he

/-- The rows of a maximal run of entries have a column of their own. -/
theorem columnBlanks_of_isRun {run : List Cell} (hcells : cells = before ++ (run ++ after))
    (hbreaks : ∀ e ∈ placeCells true p cells, e.breaks = true) (hrun : IsRun before run after)
    (hkeys : ∀ c ∈ run, 0 < c.keyLength ∧ c.keyLength ≤ smallKey) :
    ∃ bs bs', bs.length = before.length ∧ columnBlanks true (placeCells true p cells) =
      bs ++ ((run.map fun c => maxKeyLength run - c.keyLength + 1) ++ bs') := by
  obtain ⟨p', hplaced⟩ := placeCells_append true p before (run ++ after)
  obtain ⟨p'', hplaced'⟩ := placeCells_append true p' run after
  rw [hcells, hplaced, hplaced'] at hbreaks
  have hbreaks := (List.forall_mem_append.1 (List.forall_mem_append.1 hbreaks).2).1
  have hsize : ∀ c ∈ run, 0 < c.size ∧ c.size ≤ smallKey := fun c hc => by
    rw [Cell.size_of_isEntry (hrun.entries c hc)]
    exact hkeys c hc
  have hkeyed : ∀ e ∈ placeCells true p' run, e.Keyed := fun e he => by
    have hentry := hrun.entries e.cell (mem_of_mem_placeCells he)
    have heq := size_of_mem_placeCells e he
    exact ⟨hbreaks e he, hentry, heq.trans (Cell.size_of_isEntry hentry),
      heq ▸ (hsize e.cell (mem_of_mem_placeCells he)).1⟩
  have hblanks := columnBlanks_of_keyed hkeyed (isChain_sectionNo hbreaks hsize)
  rw [map_cell_placeCells] at hblanks
  refine ⟨columnBlanks true (placeCells true p before), columnBlanks true (placeCells true p'' after),
    by rw [length_columnBlanks, length_placeCells], ?_⟩
  -- on both sides the run ends with an element that has no key of its own
  rw [hcells, hplaced, hplaced', ← hblanks,
    columnBlanks_append fun e he _ _ => .inl (key?_row_of_mem_getLast? hrun.last_before he),
    columnBlanks_append fun _ _ e' he' => .inr (key?_row_of_mem_head? hrun.head_after he')]

/-- In a maximal run of entries whose keys are not too long, the values start two characters behind the
longest key. -/
theorem columnBlanks_of_run {run : List Cell} (hcells : cells = before ++ (run ++ after))
    (hbreaks : ∀ e ∈ placeCells true p cells, e.breaks = true) (hrun : IsRun before run after)
    (hkeys : ∀ c ∈ run, 0 < c.keyLength ∧ c.keyLength ≤ smallKey) :
    ∃ bs bs', bs.length = before.length ∧
      columnBlanks (1 < cells.length) (placeCells true p cells) =
        bs ++ ((run.map fun c => maxKeyLength run - c.keyLength + 1) ++ bs') := by
  by_cases hmany : 1 < cells.length
  · rw [decide_eq_true hmany]
    exact columnBlanks_of_isRun hcells hbreaks hrun hkeys
  -- one element has the blank that it would have in any case
  · have hone : (run.map fun c => maxKeyLength run - c.keyLength + 1) = List.replicate run.length 1 := by
      cases run with
      | nil => rfl
      | cons c run =>
        obtain rfl : run = [] := List.eq_nil_of_length_eq_zero (by simp [hcells] at hmany; omega)
        simp [maxKeyLength]
    refine ⟨List.replicate before.length 1, List.replicate after.length 1, List.length_replicate, ?_⟩
    rw [decide_eq_false hmany, columnBlanks_false, length_placeCells, hone, hcells, List.length_append,
      List.length_append, List.replicate_add, List.replicate_add]

/-- The same at one entry of the run. -/
theorem columnBlanks_of_run_at {c : Cell} {front back : List Cell}
    (hcells : cells = before ++ ((front ++ c :: back) ++ after))
    (hbreaks : ∀ e ∈ placeCells true p cells, e.breaks = true)
    (hrun : IsRun before (front ++ c :: back) after)
    (hkeys : ∀ c' ∈ front ++ c :: back, 0 < c'.keyLength ∧ c'.keyLength ≤ smallKey) :
    ∃ bs bs', bs.length = (before ++ front).length ∧
      columnBlanks (1 < cells.length) (placeCells true p cells) =
        bs ++ (maxKeyLength (front ++ c :: back) - c.keyLength + 1) :: bs' := by
  obtain ⟨bs, bs', hlength, hblanks⟩ := columnBlanks_of_run hcells hbreaks hrun hkeys
  let blanks (c' : Cell) := maxKeyLength (front ++ c :: back) - c'.keyLength + 1
  refine ⟨bs ++ front.map blanks, back.map blanks ++ bs', ?_, ?_⟩
  · rw [List.length_append, List.length_append, List.length_map, hlength]
  · rw [hblanks, List.map_append, List.map_cons]
    simp only [List.append_assoc, List.cons_append, blanks]

end Cells

end LiteralFill
