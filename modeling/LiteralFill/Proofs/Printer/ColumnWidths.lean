import LiteralFill.Printer
import LiteralFill.Proofs.Printer.KeyColumns
import Mathlib.Data.List.DropRight
import Mathlib.Order.Bounds.Basic

namespace LiteralFill

/-- A row with a key, in the section of this number. -/
def Row.IsKeyed (no : Nat) (r : Row) : Prop := r.key?.isSome = true ∧ r.sectionNo = no

instance (no : Nat) (r : Row) : Decidable (r.IsKeyed no) := inferInstanceAs (Decidable (_ ∧ _))

/-- A maximal block of rows with keys in one section. -/
structure IsColumn (no : Nat) (above block below : List Row) : Prop where
  keyed : ∀ r ∈ block, r.IsKeyed no
  last_above : ∀ r ∈ above.getLast?, ¬r.IsKeyed no
  head_below : ∀ r ∈ below.head?, ¬r.IsKeyed no

/-- The key of the row and one blank or more take up one character more than the column has. -/
def Row.FillsColumn (indent : Nat) (r : Row) (width : Nat) : Prop :=
  ∀ key ∈ r.key?, ∃ blanks, 1 ≤ blanks ∧ key.length + blanks = width + 1 ∧
    r.write indent width =
      (if r.breaks then newline (indent + 1) else "") ++ (key ++ repeated ' ' blanks) ++ r.text

section Column

variable {no : Nat} {r r' : Row} {above block below : List Row}

theorem Row.sharesColumn_iff : r.sharesColumn r' = true ↔
    r.key?.isSome = true ∧ r'.key?.isSome = true ∧ r.sectionNo = r'.sectionNo := by
  simp only [sharesColumn, Bool.and_eq_true, beq_iff_eq, and_assoc]

theorem exists_isColumn (h : r.IsKeyed no) (before after : List Row) :
    ∃ above front back below, before = above ++ front ∧ after = back ++ below ∧
      IsColumn no above (front ++ r :: back) below := by
  let keyed (r : Row) : Bool := decide (r.IsKeyed no)
  refine ⟨before.rdropWhile keyed, before.rtakeWhile keyed, after.takeWhile keyed,
    after.dropWhile keyed, List.rdropWhile_append_rtakeWhile.symm,
    List.takeWhile_append_dropWhile.symm, ?_, ?_, ?_⟩
  · intro r' hr'
    rcases List.mem_append.1 hr' with hfront | htail
    · exact of_decide_eq_true (List.mem_rtakeWhile_imp (p := keyed) hfront)
    · rcases List.mem_cons.1 htail with rfl | hback
      · exact h
      · exact of_decide_eq_true (List.mem_takeWhile_imp (p := keyed) hback)
  · intro r' hr'
    have hne : before.rdropWhile keyed ≠ [] := List.ne_nil_of_mem (List.mem_of_mem_getLast? hr')
    rw [List.getLast?_eq_some_getLast hne] at hr'
    cases hr'
    exact of_decide_eq_false (Bool.eq_false_iff.2 (List.rdropWhile_last_not keyed before hne))
  · intro r' hr'
    have hhead := List.head?_dropWhile_not keyed after
    rw [hr'] at hhead
    exact of_decide_eq_false hhead

theorem isGreatest_maxKeyWidth {rows : List Row} (hne : rows ≠ []) :
    IsGreatest {width | ∃ r ∈ rows, r.keyWidth = width} (maxKeyWidth rows) := by
  constructor
  · have hne : rows.map Row.keyWidth ≠ [] := by simpa using hne
    obtain ⟨width, hwidth⟩ := Option.isSome_iff_exists.1 (List.isSome_max?_of_ne_nil hne)
    have hmax : maxKeyWidth rows = width := by
      rw [maxKeyWidth, List.foldl_max, hwidth]
      exact Nat.zero_max width
    rw [hmax]
    exact List.mem_map.1 (List.max?_mem hwidth)
  · rintro _ ⟨r, hr, rfl⟩
    exact le_foldl_max (List.mem_map_of_mem hr)

/-- All rows of a column are as wide as its longest key. -/
theorem IsColumn.keyWidths_eq (h : IsColumn no above block below) (hne : block ≠ []) :
    keyWidths (above ++ (block ++ below)) =
      keyWidths above ++ ((block.map fun _ => maxKeyWidth block) ++ keyWidths below) := by
  have habove : ∀ r ∈ above.getLast?, ∀ r' ∈ (block ++ below).head?, r.sharesColumn r' = false := by
    intro r hr r' hr'
    rw [List.head?_append_of_ne_nil block hne] at hr'
    have hkeyed := h.keyed r' (List.mem_of_mem_head? hr')
    apply Bool.eq_false_iff.2
    intro hshares
    obtain ⟨hkey, -, hsection⟩ := Row.sharesColumn_iff.1 hshares
    exact h.last_above r hr ⟨hkey, hsection.trans hkeyed.2⟩
  have hbelow : ∀ r ∈ block.getLast?, ∀ r' ∈ below.head?, r.sharesColumn r' = false := by
    intro r hr r' hr'
    have hkeyed := h.keyed r (List.mem_of_mem_getLast? hr)
    apply Bool.eq_false_iff.2
    intro hshares
    obtain ⟨-, hkey, hsection⟩ := Row.sharesColumn_iff.1 hshares
    exact h.head_below r' hr' ⟨hkey, hsection.symm.trans hkeyed.2⟩
  have hblock : block.IsChain fun r r' => r.sharesColumn r' = true := by
    refine (List.pairwise_of_forall_mem_list fun r hr r' hr' => ?_).isChain
    obtain ⟨hkey, hsection⟩ := h.keyed r hr
    obtain ⟨hkey', hsection'⟩ := h.keyed r' hr'
    exact Row.sharesColumn_iff.2 ⟨hkey, hkey', hsection.trans hsection'.symm⟩
  rw [keyWidths_append habove, keyWidths_append hbelow, keyWidths_of_isChain hblock]

/-- A row with a key has the width of the column that it is in. -/
theorem exists_getElem?_keyWidths (h : r.IsKeyed no) (before after : List Row) :
    ∃ above front back below, before = above ++ front ∧ after = back ++ below ∧
      IsColumn no above (front ++ r :: back) below ∧
      (keyWidths (before ++ r :: after))[before.length]? = some (maxKeyWidth (front ++ r :: back)) := by
  obtain ⟨above, front, back, below, rfl, rfl, hcolumn⟩ := exists_isColumn h before after
  have hwidths := hcolumn.keyWidths_eq (by simp)
  refine ⟨above, front, back, below, rfl, rfl, hcolumn, ?_⟩
  rw [show above ++ front ++ r :: (back ++ below) = above ++ ((front ++ r :: back) ++ below) by simp,
    hwidths, List.length_append, List.getElem?_append_right (by rw [length_keyWidths]; omega),
    length_keyWidths, Nat.add_sub_cancel_left, List.getElem?_append_left (by simp)]
  simp

/-- No key is longer than its column is wide. -/
theorem keyWidth_le_of_mem_zip {rows : List Row} {width : Nat}
    (h : (r, width) ∈ rows.zip (keyWidths rows)) : r.keyWidth ≤ width := by
  obtain ⟨i, hi, hget⟩ := List.mem_iff_getElem.1 h
  rw [List.getElem_zip, Prod.mk.injEq] at hget
  obtain ⟨hrow, hwidth⟩ := hget
  have hlt : i < rows.length := by
    rw [List.length_zip] at hi
    omega
  have hrows : rows = rows.take i ++ r :: rows.drop (i + 1) := by
    rw [← hrow, List.getElem_cons_drop, List.take_append_drop]
  cases hkey : r.key? with
  | none =>
    rw [Row.keyWidth, hkey]
    exact Nat.zero_le width
  | some key =>
    have hkeyed : r.IsKeyed r.sectionNo := ⟨by rw [hkey]; rfl, rfl⟩
    obtain ⟨above, front, back, below, -, -, -, hcolumn⟩ :=
      exists_getElem?_keyWidths hkeyed (rows.take i) (rows.drop (i + 1))
    rw [← hrows, List.length_take_of_le (Nat.le_of_lt hlt)] at hcolumn
    obtain ⟨_, hmax⟩ := List.getElem?_eq_some_iff.1 hcolumn
    rw [← hwidth, hmax]
    exact (isGreatest_maxKeyWidth (by simp)).2 ⟨r, by simp, rfl⟩

theorem Row.fillsColumn (indent : Nat) {width : Nat} (h : r.keyWidth ≤ width) :
    r.FillsColumn indent width := by
  intro key hkey
  rw [Option.mem_def] at hkey
  have hle : key.length ≤ width := by
    rw [keyWidth, hkey] at h
    exact h
  refine ⟨width - key.length + 1, by omega, by omega, ?_⟩
  rw [write, hkey]

end Column

/-- The rows of a literal whose elements do not all stand on the line of the brace. -/
def brokenRows (b : Braces) (cells : List Cell) : List Row :=
  ((placeCells b.measured ⟨b.openLine, 0, false, [], 0⟩ cells).splitBy fun _ next => !next.breaks).map
    (Row.ofGroup (1 < cells.length))

/-- Every row has a width. For a row with a key it is that of the longest key among the rows around it
that have keys in the same section. No key is longer than its column, so that wherever the elements of a
literal stand, one blank or more fills up the column behind each of their keys. -/
theorem isGreatest_keyWidths :
    (∀ rows : List Row, (keyWidths rows).length = rows.length ∧
      ∀ before r after, rows = before ++ r :: after → r.key?.isSome = true →
        ∃ above front back below width, before = above ++ front ∧ after = back ++ below ∧
          IsColumn r.sectionNo above (front ++ r :: back) below ∧
          (keyWidths rows)[before.length]? = some width ∧
          IsGreatest {w | ∃ r' ∈ front ++ r :: back, r'.keyWidth = w} width) ∧
    ∀ (lines prec depth indent : Nat) (type? : Option Expr) (lbrace : Nat) (elts : List Expr)
      (rbrace : Nat), elts ≠ [] → onOneLine lines lbrace elts = false →
      let rows := brokenRows ⟨lineOf lines lbrace, lineOf lines rbrace, 0 < lbrace && 0 < rbrace⟩
        (printCells lines (indent + 1) elts)
      (∃ closing, (Expr.compositeLit type? lbrace elts rbrace).print lines prec depth indent =
        (printOpt lines highestPrec depth indent type?).getD "" ++ "\x7b" ++
          (",".intercalate (List.zipWith (Row.write indent) rows (keyWidths rows)) ++ closing) ++
            "\x7d") ∧
      ∀ r width, (r, width) ∈ rows.zip (keyWidths rows) → r.FillsColumn indent width := by
  constructor
  · intro rows
    refine ⟨length_keyWidths rows, ?_⟩
    intro before r after hrows hkey
    obtain ⟨above, front, back, below, hbefore, hafter, hcolumn, hwidth⟩ :=
      exists_getElem?_keyWidths ⟨hkey, rfl⟩ before after
    rw [← hrows] at hwidth
    exact ⟨above, front, back, below, _, hbefore, hafter, hcolumn, hwidth,
      isGreatest_maxKeyWidth (by simp)⟩
  · intro lines prec depth indent type? lbrace elts rbrace hne hbroken rows
    refine ⟨?_, fun r width h => Row.fillsColumn indent (keyWidth_le_of_mem_zip h)⟩
    have hempty : elts.isEmpty = false := by simpa using hne
    rw [Expr.print, hempty, hbroken]
    exact ⟨_, rfl⟩

/-- `Point{X: a, Long: b}` with an entry on each line. -/
def pointEntries : List Expr :=
  [.keyValue (.ident "X" 2) 2 (.ident "a" 2), .keyValue (.ident "Long" 3) 3 (.ident "b" 3)]

/-- A key beside a longer one, above a row without a key and a row of another section, and a literal of
two entries. -/
theorem isGreatest_keyWidths_longer :
    (let r : Row := ⟨true, some "A:", "a", 1⟩
      let after : List Row :=
        [⟨true, some "Long:", "b", 1⟩, ⟨true, none, "c", 1⟩, ⟨true, some "Id:", "d", 2⟩]
      r.key?.isSome = true ∧ keyWidths ([] ++ r :: after) = [5, 5, 0, 3] ∧
        ∃ above front back below width, [] = above ++ front ∧ after = back ++ below ∧
          IsColumn r.sectionNo above (front ++ r :: back) below ∧
          (keyWidths ([] ++ r :: after))[([] : List Row).length]? = some width ∧
          IsGreatest {w | ∃ r' ∈ front ++ r :: back, r'.keyWidth = w} width) ∧
      pointEntries ≠ [] ∧ onOneLine 4 1 pointEntries = false ∧
      (Expr.compositeLit (some (.name "Point")) 1 pointEntries 4).print 4 lowestPrec 1 0 =
        "Point\x7b\n\tX:    a,\n\tLong: b,\n\x7d" ∧
      ∀ r width, (r, width) ∈ (brokenRows ⟨1, 4, true⟩ (printCells 4 1 pointEntries)).zip
        (keyWidths (brokenRows ⟨1, 4, true⟩ (printCells 4 1 pointEntries))) → r.FillsColumn 0 width := by
  have hne : pointEntries ≠ [] := List.cons_ne_nil _ _
  have hbroken : onOneLine 4 1 pointEntries = false := by decide
  have hcolumn := fun r after => (isGreatest_keyWidths.1 _).2 [] r after rfl
  refine ⟨⟨rfl, by decide, hcolumn _ _ rfl⟩, hne, hbroken, by cbv, ?_⟩
  exact (isGreatest_keyWidths.2 4 lowestPrec 1 0 (some (.name "Point")) 1 pointEntries 4 hne hbroken).2

end LiteralFill
