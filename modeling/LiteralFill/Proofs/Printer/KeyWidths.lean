import LiteralFill.Printer.Columns
import Mathlib.Data.List.SplitBy
import Mathlib.Data.List.TakeWhile

namespace LiteralFill

/-- Neighbours that share a column of keys. -/
def Row.sharesColumn (a b : Row) : Bool :=
  a.key?.isSome && b.key?.isSome && a.sectionNo == b.sectionNo

def Row.keyWidth (r : Row) : Nat := (r.key?.map (·.length)).getD 0

/-- The longest key among rows. -/
def maxKeyWidth (rows : List Row) : Nat := (rows.map Row.keyWidth).foldl max 0

/-- The rows in blocks that share a column, and for each row the longest key of its block. -/
def blockWidths (rows : List Row) : List Nat :=
  (rows.splitBy Row.sharesColumn).flatMap fun block => block.map fun _ => maxKeyWidth block

theorem blockWidths_append {rows rows' : List Row}
    (h : ∀ r ∈ rows.getLast?, ∀ r' ∈ rows'.head?, r.sharesColumn r' = false) :
    blockWidths (rows ++ rows') = blockWidths rows ++ blockWidths rows' := by
  rw [blockWidths, List.splitBy_append h, List.flatMap_append, blockWidths, blockWidths]

theorem blockWidths_of_isChain {rows : List Row} (h : rows.IsChain fun r r' => r.sharesColumn r' = true) :
    blockWidths rows = List.replicate rows.length (maxKeyWidth rows) := by
  by_cases hne : rows = []
  · rw [hne]
    rfl
  · rw [blockWidths, List.splitBy_of_isChain hne h, List.flatMap_singleton, List.map_const']

theorem columnEnd_eq (rows : List Row) (sectionNo stop : Nat) : columnEnd rows sectionNo stop =
    stop + ((rows.drop stop).takeWhile (Row.joinsColumn sectionNo)).length := by
  fun_induction columnEnd rows sectionNo stop with
  | case1 stop h hjoins ih =>
    rw [ih, List.drop_eq_getElem_cons h, List.takeWhile_cons_of_pos hjoins, List.length_cons]
    omega
  | case2 stop h hstop =>
    rw [List.drop_eq_getElem_cons h, List.takeWhile_cons_of_neg hstop, List.length_nil, Nat.add_zero]
  | case3 stop h =>
    rw [List.drop_eq_nil_of_le (Nat.le_of_not_lt h), List.takeWhile_nil, List.length_nil, Nat.add_zero]

theorem longestKey_eq {rows : List Row} (h : ∀ r ∈ rows, r.key?.isSome = true) :
    longestKey rows = maxKeyWidth rows := by
  have hkeys : (rows.filterMap Row.key?).map String.length = rows.map Row.keyWidth := by
    rw [List.map_filterMap, ← List.filterMap_eq_map]
    refine List.filterMap_congr fun r hr => ?_
    obtain ⟨key, hkey⟩ := Option.isSome_iff_exists.1 (h r hr)
    simp [Row.keyWidth, hkey]
  rw [longestKey, hkeys, maxKeyWidth, List.foldl_max, Nat.zero_max]

theorem Row.sharesColumn_eq {sectionNo : Nat} {r r' : Row} (h : r.joinsColumn sectionNo = true) :
    r.sharesColumn r' = r'.joinsColumn sectionNo := by
  obtain ⟨hkey, hsection⟩ := Bool.and_eq_true_iff.1 h
  rw [sharesColumn, hkey, eq_of_beq hsection, Bool.true_and, joinsColumn, BEq.comm]

/-- A row with a key begins a block, which goes on as long as its column does. -/
theorem blockWidths_cons {r : Row} (h : r.key?.isSome = true) (rows : List Row) :
    let block := r :: rows.takeWhile (Row.joinsColumn r.sectionNo)
    blockWidths (r :: rows) = List.replicate block.length (longestKey block) ++
      blockWidths (rows.dropWhile (Row.joinsColumn r.sectionNo)) := by
  intro block
  have hblock : ∀ r' ∈ block, r'.joinsColumn r.sectionNo = true := by
    intro r' hr'
    rcases List.mem_cons.1 hr' with rfl | hr'
    · rw [Row.joinsColumn, h, beq_self_eq_true, Bool.and_self]
    · exact List.mem_takeWhile_imp hr'
  have hchain : block.IsChain fun r r' => r.sharesColumn r' = true := by
    apply List.Pairwise.isChain
    apply List.pairwise_of_forall_mem_list
    intro a ha b hb
    rw [Row.sharesColumn_eq (hblock a ha), hblock b hb]
  have hend : ∀ a ∈ block.getLast?, ∀ b ∈ (rows.dropWhile (Row.joinsColumn r.sectionNo)).head?,
      a.sharesColumn b = false := by
    intro a ha b hb
    have hstop := List.head?_dropWhile_not (Row.joinsColumn r.sectionNo) rows
    rw [hb] at hstop
    rw [Row.sharesColumn_eq (hblock a (List.mem_of_mem_getLast? ha)), hstop]
  have hkeys : ∀ r' ∈ block, r'.key?.isSome = true := fun r' hr' =>
    (Bool.and_eq_true_iff.1 (hblock r' hr')).1
  have hrows : r :: rows = block ++ rows.dropWhile (Row.joinsColumn r.sectionNo) := by
    rw [List.cons_append, List.takeWhile_append_dropWhile]
  rw [hrows, blockWidths_append hend, blockWidths_of_isChain hchain, longestKey_eq hkeys]

theorem blockWidths_cons_of_no_key {r : Row} (h : r.key? = none) (rows : List Row) :
    blockWidths (r :: rows) = 0 :: blockWidths rows := by
  have hend : ∀ a ∈ [r].getLast?, ∀ b ∈ rows.head?, a.sharesColumn b = false := by
    simp [Row.sharesColumn, h]
  rw [← List.singleton_append, blockWidths_append hend, blockWidths_of_isChain (.singleton r)]
  simp [maxKeyWidth, Row.keyWidth, h]

/-- A column that begins in a row with a key holds the rows of a block. -/
theorem exists_columnEnd_eq {rows : List Row} {start : Nat} (h : start < rows.length)
    (hkey : rows[start].key?.isSome = true) :
    ∃ n more, columnEnd rows rows[start].sectionNo (start + 1) = start + n ∧
      rows.length - start = n + more ∧
      blockWidths (rows.drop start) = List.replicate n (longestKey ((rows.drop start).take n)) ++
        blockWidths (rows.drop (start + n)) := by
  let joins := Row.joinsColumn rows[start].sectionNo
  let block := rows[start] :: (rows.drop (start + 1)).takeWhile joins
  let below := (rows.drop (start + 1)).dropWhile joins
  have hrows : rows.drop start = block ++ below := by
    rw [List.cons_append, List.takeWhile_append_dropWhile, List.drop_eq_getElem_cons h]
  have hwidths : blockWidths (rows.drop start) =
      List.replicate block.length (longestKey block) ++ blockWidths below := by
    rw [List.drop_eq_getElem_cons h]
    exact blockWidths_cons hkey _
  refine ⟨block.length, below.length, ?_, ?_, ?_⟩
  · rw [columnEnd_eq, Nat.add_assoc, Nat.add_comm 1]
    rfl
  · rw [← List.length_drop, hrows, List.length_append]
  · rw [hwidths, ← List.drop_drop, hrows, List.take_left, List.drop_left]

/-- Rows that have no width yet get one, and those before and behind them keep theirs. -/
theorem widen_append (rows : List Row) (done : List Nat) (n more : Nat) :
    widen rows done.length (done.length + n) (done ++ List.replicate (n + more) 0) =
      done ++ List.replicate n (longestKey ((rows.drop done.length).take n)) ++
        List.replicate more 0 := by
  rw [widen, List.take_left, List.drop_take, Nat.add_sub_cancel_left, ← List.drop_drop, List.drop_left,
    List.drop_replicate, Nat.add_sub_cancel_left]

/-- The widths before `start` stay as they are, and behind them come those of the blocks. -/
theorem keyWidthsFrom_eq {rows : List Row} {start : Nat} {widths done : List Nat}
    (hstart : done.length = start) (hwidths : widths = done ++ List.replicate (rows.length - start) 0) :
    keyWidthsFrom rows start widths = done ++ blockWidths (rows.drop start) := by
  -- the scan goes from block to block, so that what is done ends with a whole one
  fun_induction keyWidthsFrom rows start widths generalizing done with
  | case1 start widths h hkey stop =>
    rename_i ih
    subst hstart
    obtain ⟨n, more, hend, hlength, hblocks⟩ := exists_columnEnd_eq h hkey
    have hstop : stop = done.length + n := hend
    have hmore : rows.length - (done.length + n) = more := by omega
    rw [hlength] at hwidths
    rw [hstop, hmore, hwidths, widen_append] at ih
    rw [hstop, hwidths, widen_append, ih (by simp) rfl, hblocks, List.append_assoc]
  | case2 start widths h hkey ih =>
    have hnone : rows[start].key? = none := by simpa using hkey
    have hrest : rows.length - start = rows.length - (start + 1) + 1 := by omega
    rw [hrest, List.replicate_succ, List.append_cons] at hwidths
    rw [ih (by simp [hstart]) hwidths, List.drop_eq_getElem_cons h, blockWidths_cons_of_no_key hnone,
      ← List.append_cons]
  | case3 start widths h =>
    have hle : rows.length ≤ start := Nat.le_of_not_lt h
    rw [hwidths, Nat.sub_eq_zero_of_le hle, List.drop_eq_nil_of_le hle]
    rfl

/-- The scan over the rows gives each of them the width of its block. -/
theorem keyWidths_eq_blockWidths (rows : List Row) : keyWidths rows = blockWidths rows :=
  keyWidthsFrom_eq List.length_nil rfl

theorem length_keyWidths (rows : List Row) : (keyWidths rows).length = rows.length := by
  have h := congrArg List.length (List.flatten_splitBy Row.sharesColumn rows)
  rw [List.length_flatten] at h
  simpa [keyWidths_eq_blockWidths, blockWidths, List.length_flatMap] using h

theorem keyWidths_append {rows rows' : List Row}
    (h : ∀ r ∈ rows.getLast?, ∀ r' ∈ rows'.head?, r.sharesColumn r' = false) :
    keyWidths (rows ++ rows') = keyWidths rows ++ keyWidths rows' := by
  simp only [keyWidths_eq_blockWidths, blockWidths_append h]

theorem keyWidths_of_isChain {rows : List Row} (h : rows.IsChain fun r r' => r.sharesColumn r' = true) :
    keyWidths rows = rows.map fun _ => maxKeyWidth rows := by
  rw [keyWidths_eq_blockWidths, blockWidths_of_isChain h, List.map_const']

end LiteralFill
