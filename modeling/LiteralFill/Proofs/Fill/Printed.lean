import LiteralFill.Proofs.Fill.Outermost
import LiteralFill.Proofs.Layout.Climb
import LiteralFill.Proofs.Printer.Lines

namespace LiteralFill

/-- A filled literal is printed on as many lines as its last position says, and every token on the line
of its position. A line is indented by the literals around its first token, and every line but the first
starts with the first token of an element or with a brace that closes one. -/
theorem splitOn_format_fill {depth : Nat} {v : Viewpoint} {lit : Literal} {ty : Ty} {omitType : Bool}
    {filled : Filled} (h : fill depth v lit ty omitType = .ok filled)
    (hleaf : ∀ t ∈ filled.expr.tokens 0, '\n' ∉ t.text.toList) :
    let rows := (filled.expr.format filled.lines).toList.splitOn '\n'
    filled.expr.positions.getLast? = some rows.length ∧
      (∀ t ∈ filled.expr.tokens 0, 0 < t.pos ∧ t.pos ≤ rows.length) ∧
      ∀ i (hi : i < rows.length),
        ShowsLine (0 < i) ((filled.expr.tokens 0).filter (·.pos = i + 1)) rows[i] := by
  obtain ⟨target, fields, entries, n, e, -, -, hexpr, hlines⟩ := of_fill_eq_ok h
  have hroom := e.advances_lt_lineCount
  have hprints : Prints 1 (filled.expr.tokens 0) (filled.expr.format filled.lines).toList
      (1 + e.advances) := by
    rw [hexpr]
    exact e.prints_layOut lowestPrec 1 0 Nat.one_pos (by omega)
  obtain ⟨first, rest, hsplit, hlength, hopens, hfirst, hrest⟩ := hprints.exists_splitOn hleaf
  intro rows
  have hrows : rows = first :: rest := hsplit
  refine ⟨?_, fun t ht => ?_, ?_⟩
  · rw [hexpr, e.getLast?_positions_layOut 1, hrows, List.length_cons, hlength, Nat.add_comm]
  · rw [hexpr] at ht
    have ht := (e.climb_layOut 0 1).bounds.2 t.pos (List.mem_map_of_mem ht)
    rw [hrows, List.length_cons]
    omega
  · rw [hrows]
    intro i hi
    cases i with
    | zero =>
      obtain ⟨text, ts, hts⟩ := filled.expr.exists_tokens_eq_cons 0
      rw [hexpr, Expr.firstPos_layOut, ← hexpr] at hts
      have hgroup : (filled.expr.tokens 0).filter (·.pos = 1) =
          .mark 0 text 1 :: ts.filter (·.pos = 1) := by
        rw [hts]
        exact List.filter_cons_of_pos rfl
      rw [hgroup] at hopens
      exact ⟨_, _, hgroup, rfl, fun t ht => hopens t (List.mem_cons_of_mem _ ht), first, rfl, hfirst⟩
    | succ i =>
      have hi := hrest i (Nat.lt_of_succ_lt_succ hi)
      rw [show 1 + 1 + i = i + 1 + 1 by omega] at hi
      rw [decide_eq_true (Nat.succ_pos i), List.getElem_cons_succ]
      exact hi

/-- The field that is written as `[2]int{1, 2}` and the one that is not, on seven lines. -/
theorem splitOn_format_fill_reused :
    let scope : Scope := ⟨"example.com/app", "app"⟩
    let fields : List Field :=
      [⟨"A", true, false, scope, .basic .int⟩, ⟨"B", true, false, scope, .array 2 (.basic .int)⟩]
    let pair : Expr := .compositeLit (some (.arrayType 0 (some (.basicLit .int "2" 0)) (.name "int")))
      0 [.basicLit .int "1" 0, .basicLit .int "2" 0] 0
    ∃ filled, fill 3 ⟨.empty, ⟨scope, []⟩⟩ ⟨none, 0, [.entry "B" pair], 0⟩ (.struct fields) true =
        .ok filled ∧
      (∀ t ∈ filled.expr.tokens 0, '\n' ∉ t.text.toList) ∧
      ((filled.expr.format filled.lines).toList.splitOn '\n').length = 7 := by
  intro scope fields pair
  have h : (fill 3 ⟨.empty, ⟨scope, []⟩⟩ ⟨none, 0, [.entry "B" pair], 0⟩ (.struct fields) true).map
      (fun filled => ((filled.expr.tokens 0).all fun t => !t.text.toList.contains '\n',
        filled.expr.positions.getLast?)) = .ok (true, some 7) := by decide +kernel
  cases hf : fill 3 ⟨.empty, ⟨scope, []⟩⟩ ⟨none, 0, [.entry "B" pair], 0⟩ (.struct fields) true with
  | error e => rw [hf] at h; cases h
  | ok filled =>
    rw [hf] at h
    obtain ⟨hleaf, hlast⟩ := Prod.mk.inj (Except.ok.inj h)
    have hleaf : ∀ t ∈ filled.expr.tokens 0, '\n' ∉ t.text.toList := by simpa using hleaf
    have hlength := (splitOn_format_fill hf hleaf).1
    rw [hlast] at hlength
    exact ⟨filled, rfl, hleaf, (Option.some.inj hlength).symm⟩

end LiteralFill
