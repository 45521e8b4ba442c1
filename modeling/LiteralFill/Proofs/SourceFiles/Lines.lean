import LiteralFill.SourceFiles

namespace LiteralFill.SourceFile

variable (f : SourceFile)

theorem length_bytes : f.bytes.length = f.size := rfl

/-- A line starts at the beginning of a file and behind each newline. -/
def startsLine (offset : Nat) : Bool := offset = 0 || f.bytes[offset - 1]? = some newlineByte

/-- The table lists the offsets at which a line starts, in their order. -/
theorem lineStarts_eq_filter : f.lineStarts = (List.range (f.size + 1)).filter f.startsLine := by
  have hnewlines : f.bytes.zipIdx.filter (·.1 == newlineByte) =
      f.bytes.zipIdx.filter fun x => f.startsLine (x.2 + 1) := by
    refine List.filter_congr fun x hx => ?_
    rw [startsLine, Nat.add_sub_cancel, List.mem_zipIdx_iff_getElem?.1 hx]
    simp [Bool.beq_eq_decide_eq]
  have hnumbers : List.range f.size = f.bytes.zipIdx.map Prod.snd := by
    rw [List.zipIdx_map_snd, List.range_eq_range', length_bytes]
  rw [lineStarts, hnewlines, List.range_succ_eq_map, List.filter_cons_of_pos rfl, hnumbers, List.map_map,
    List.filter_map]
  rfl

/-- The starts at or before an offset. -/
def lineStartsTo (offset : Nat) : List Nat := (List.range (offset + 1)).filter f.startsLine

theorem lineStartsTo_succ {offset : Nat} {b : UInt8} (h : f.bytes[offset]? = some b) :
    f.lineStartsTo (offset + 1) =
      f.lineStartsTo offset ++ if b = newlineByte then [offset + 1] else [] := by
  rw [lineStartsTo, List.range_succ, List.filter_append, lineStartsTo, List.filter_cons, startsLine,
    Nat.add_sub_cancel, h]
  simp

theorem mem_lineStartsTo_le {offset start : Nat} (h : start ∈ f.lineStartsTo offset) : start ≤ offset :=
  Nat.le_of_lt_succ (List.mem_range.1 (List.mem_filter.1 h).1)

/-- The table in two parts: what is up to an offset, and what is behind it. -/
theorem exists_lineStarts_eq (offset : Nat) : ∃ later,
    f.lineStarts = f.lineStartsTo (min offset f.size) ++ later ∧ ∀ start ∈ later, offset < start := by
  rw [lineStarts_eq_filter]
  rcases Nat.le_total offset f.size with hle | hle
  · obtain ⟨more, hmore⟩ := Nat.exists_eq_add_of_le hle
    refine ⟨((List.range more).map (offset + 1 + ·)).filter f.startsLine, ?_, fun start hstart => ?_⟩
    · rw [Nat.min_eq_left hle, hmore, Nat.add_right_comm, List.range_add, List.filter_append, lineStartsTo]
    · obtain ⟨n, -, rfl⟩ := List.mem_map.1 (List.mem_filter.1 hstart).1
      omega
  · exact ⟨[], by rw [Nat.min_eq_right hle, List.append_nil, lineStartsTo], nofun⟩

/-- The starts that a search in the table passes. -/
theorem takeWhile_lineStarts (offset : Nat) :
    f.lineStarts.takeWhile (· ≤ offset) = f.lineStartsTo (min offset f.size) := by
  obtain ⟨later, hstarts, hlater⟩ := f.exists_lineStarts_eq offset
  have hto : ∀ start ∈ f.lineStartsTo (min offset f.size), decide (start ≤ offset) = true :=
    fun start hstart =>
      decide_eq_true (Nat.le_trans (f.mem_lineStartsTo_le hstart) (Nat.min_le_left _ _))
  rw [hstarts, List.takeWhile_append_of_pos hto]
  cases later with
  | nil => rw [List.takeWhile_nil, List.append_nil]
  | cons start later =>
    have hlt := hlater start List.mem_cons_self
    rw [List.takeWhile_cons_of_neg (by simpa using hlt), List.append_nil]

theorem length_lineStartsTo {offset : Nat} (h : offset ≤ f.size) :
    (f.lineStartsTo offset).length = 1 + (f.bytes.take offset).count newlineByte := by
  induction offset with
  | zero => rfl
  | succ offset ih =>
    have hb := List.getElem?_eq_getElem (l := f.bytes) (i := offset) h
    rw [f.lineStartsTo_succ hb, List.take_add_one, hb, Option.toList_some, List.length_append,
      List.count_append, ih (Nat.le_of_succ_le h), Nat.add_assoc]
    by_cases hnewline : f.bytes[offset] = newlineByte <;> simp [hnewline]

/-- The search passes the first line at least. -/
theorem lineAt_eq_length (offset : Nat) :
    f.lineAt offset = (f.lineStartsTo (min offset f.size)).length := by
  rw [lineAt, takeWhile_lineStarts, length_lineStartsTo _ (Nat.min_le_right _ _)]
  exact Nat.max_eq_left (Nat.le_add_right 1 _)

/-- The line found in the table is told by the newlines before the offset. -/
theorem lineAt_eq_count (offset : Nat) : f.lineAt offset = 1 + (f.bytes.take offset).count newlineByte := by
  have htake : f.bytes.take (min offset f.size) = f.bytes.take offset := by
    rw [← length_bytes, ← List.take_eq_take_min]
  rw [lineAt_eq_length, length_lineStartsTo _ (Nat.min_le_right _ _), htake]

theorem lineAt_succ {offset : Nat} {b : UInt8} (h : f.bytes[offset]? = some b) :
    f.lineAt (offset + 1) = f.lineAt offset + if b = newlineByte then 1 else 0 := by
  rw [lineAt_eq_count, List.take_add_one, h, Option.toList_some, List.count_append, ← Nat.add_assoc,
    List.count_singleton, lineAt_eq_count]
  simp only [beq_iff_eq]

theorem lineAt_mono {offset offset' : Nat} (h : offset ≤ offset') : f.lineAt offset ≤ f.lineAt offset' := by
  obtain ⟨more, rfl⟩ := Nat.exists_eq_add_of_le h
  rw [lineAt_eq_count, lineAt_eq_count, List.take_add, List.count_append]
  omega

/-- No line is passed over between two offsets. -/
theorem exists_lineAt_eq {start stop line : Nat} (h : start ≤ stop) (hsize : stop ≤ f.size)
    (hstart : f.lineAt start ≤ line) (hstop : line ≤ f.lineAt stop) :
    ∃ offset, start ≤ offset ∧ offset ≤ stop ∧ f.lineAt offset = line := by
  obtain ⟨more, rfl⟩ := Nat.exists_eq_add_of_le h
  induction more with
  | zero => exact ⟨start, Nat.le_refl start, h, Nat.le_antisymm hstart hstop⟩
  | succ more ih =>
    rcases Nat.lt_or_ge (f.lineAt (start + more)) line with hlt | hge
    · have hb := List.getElem?_eq_getElem (l := f.bytes) (i := start + more)
        (by rw [length_bytes]; omega)
      have hnext := f.lineAt_succ hb
      rw [Nat.add_assoc] at hnext
      refine ⟨start + (more + 1), h, Nat.le_refl _, ?_⟩
      split at hnext <;> omega
    · obtain ⟨offset, hfrom, hto, hline⟩ := ih (by omega) (by omega) hge
      exact ⟨offset, hfrom, by omega, hline⟩

/-- The bytes of a line that stand before `offset`. -/
def lineLead (offset : Nat) : List UInt8 :=
  ((f.bytes.take offset).reverse.takeWhile (· ≠ newlineByte)).reverse

theorem lineLead_succ {offset : Nat} {b : UInt8} (h : f.bytes[offset]? = some b) :
    f.lineLead (offset + 1) = if b = newlineByte then [] else f.lineLead offset ++ [b] := by
  rw [lineLead, List.take_add_one, h, Option.toList_some, List.reverse_append, List.reverse_singleton,
    List.singleton_append, List.takeWhile_cons]
  by_cases hb : b = newlineByte
  · rw [if_neg (by simp [hb]), if_pos hb, List.reverse_nil]
  · rw [if_pos (by simp [hb]), if_neg hb, List.reverse_cons, lineLead]

/-- The bytes that stand before an offset in its line are those from the last start on. -/
theorem exists_getLast?_lineStartsTo {offset : Nat} (h : offset ≤ f.size) :
    ∃ start, (f.lineStartsTo offset).getLast? = some start ∧ start ≤ offset ∧
      f.lineLead offset = (f.bytes.take offset).drop start := by
  induction offset with
  | zero => exact ⟨0, rfl, Nat.le_refl 0, rfl⟩
  | succ offset ih =>
    obtain ⟨start, hlast, hle, hlead⟩ := ih (Nat.le_of_succ_le h)
    have hb := List.getElem?_eq_getElem (l := f.bytes) (i := offset) h
    rw [f.lineStartsTo_succ hb, f.lineLead_succ hb]
    by_cases hnewline : f.bytes[offset] = newlineByte
    · refine ⟨offset + 1, by simp [hnewline], Nat.le_refl _, ?_⟩
      rw [if_pos hnewline, List.drop_eq_nil_of_le (List.length_take_le _ _)]
    · refine ⟨start, by simp [hnewline, hlast], Nat.le_succ_of_le hle, ?_⟩
      rw [if_neg hnewline, hlead, List.take_add_one, hb, Option.toList_some, List.drop_append_of_le_length]
      have hlength : (f.bytes.take offset).length = offset := List.length_take_of_le (Nat.le_of_succ_le h)
      exact Nat.le_trans hle (Nat.le_of_eq hlength.symm)

/-- The line of an offset has its start in the table, and what stands before the offset in the line is
what lies between the two. -/
structure HasLineStart (offset start : Nat) : Prop where
  listed : f.lineStarts[f.lineAt offset - 1]? = some start
  le : start ≤ offset
  lead : f.lineLead offset = (f.bytes.take offset).drop start

theorem exists_hasLineStart {offset : Nat} (h : offset ≤ f.size) : ∃ start, f.HasLineStart offset start := by
  obtain ⟨start, hlast, hle, hlead⟩ := f.exists_getLast?_lineStartsTo h
  refine ⟨start, ?_, hle, hlead⟩
  obtain ⟨later, hstarts, -⟩ := f.exists_lineStarts_eq offset
  rw [Nat.min_eq_left h] at hstarts
  rw [List.getLast?_eq_getElem?, length_lineStartsTo _ h, ← lineAt_eq_count] at hlast
  rw [hstarts, List.getElem?_append_left (List.getElem?_eq_some_iff.1 hlast).1, hlast]

end LiteralFill.SourceFile
