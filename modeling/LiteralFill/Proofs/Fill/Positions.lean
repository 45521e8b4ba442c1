import LiteralFill.Proofs.Fill.Outermost
import LiteralFill.Proofs.Layout.Climb

namespace LiteralFill

/-- The positions of a filled literal, in the order in which its tokens are written, start on line 1
and go up one line at a time. The last line and the lines asked for follow from the sizes of the
composite literals alone, and no position lies beyond the lines asked for. -/
theorem positions_fill {depth : Nat} {v : Viewpoint} {lit : Literal} {ty : Ty} {omitType : Bool}
    {filled : Filled} (h : fill depth v lit ty omitType = .ok filled) :
    filled.expr.positions.head? = some 1 ∧
      filled.expr.positions.IsChain (fun p q => p ≤ q ∧ q ≤ p + 1) ∧
      filled.expr.positions.getLast? =
        some (1 + ((filled.expr.literalSizes.filter (0 < ·)).map (· + 1)).sum) ∧
      filled.lines = ((filled.expr.literalSizes.filter (0 < ·)).map (· + 2)).sum ∧
      ∀ p ∈ filled.expr.positions, 1 ≤ p ∧ p ≤ max filled.lines 1 := by
  obtain ⟨target, fields, entries, n, e, -, -, hexpr, hlines⟩ := of_fill_eq_ok h
  have hadv : 1 + e.advances =
      1 + ((filled.expr.literalSizes.filter (0 < ·)).map (· + 1)).sum := by
    rw [hexpr, Expr.literalSizes_layOut, ← e.brokenSum_literalSizes.1, brokenSum]
  have hsum : filled.lines = ((filled.expr.literalSizes.filter (0 < ·)).map (· + 2)).sum := by
    rw [hlines, hexpr, Expr.literalSizes_layOut, ← e.brokenSum_literalSizes.2, brokenSum]
  refine ⟨?_, ?_, ?_, hsum, fun p hp => ?_⟩
  · rw [hexpr, Expr.head?_positions, Expr.firstPos_layOut]
  · rw [hexpr]
    exact e.isChain_positions_layOut 1
  · rw [← hadv, hexpr]
    exact e.getLast?_positions_layOut 1
  · rw [hexpr] at hp
    have hbounds := (e.climb_layOut 0 1).bounds.2 p hp
    have hroom := e.advances_lt_lineCount
    rw [hlines]
    omega

/-- A field that is written as `[2]int{1, 2}` next to one that is not, on lines 1 to 7. -/
theorem positions_fill_reused :
    let scope : Scope := ⟨"example.com/app", "app"⟩
    let fields : List Field :=
      [⟨"A", true, false, scope, .basic .int⟩, ⟨"B", true, false, scope, .array 2 (.basic .int)⟩]
    let pair : Expr := .compositeLit (some (.arrayType 0 (some (.basicLit .int "2" 0)) (.name "int")))
      0 [.basicLit .int "1" 0, .basicLit .int "2" 0] 0
    ∃ filled, fill 3 ⟨.empty, ⟨scope, []⟩⟩ ⟨none, 0, [.entry "B" pair], 0⟩ (.struct fields) true =
        .ok filled ∧
      filled.expr.positions = [1, 2, 2, 2, 3, 3, 3, 3, 3, 3, 4, 5, 6, 7] ∧
      filled.lines = ((filled.expr.literalSizes.filter (0 < ·)).map (· + 2)).sum := by
  intro scope fields pair
  have h : (fill 3 ⟨.empty, ⟨scope, []⟩⟩ ⟨none, 0, [.entry "B" pair], 0⟩ (.struct fields) true).map
      (·.expr.positions) = .ok [1, 2, 2, 2, 3, 3, 3, 3, 3, 3, 4, 5, 6, 7] := by decide +kernel
  cases hf : fill 3 ⟨.empty, ⟨scope, []⟩⟩ ⟨none, 0, [.entry "B" pair], 0⟩ (.struct fields) true with
  | error e => rw [hf] at h; cases h
  | ok filled =>
    rw [hf] at h
    exact ⟨filled, rfl, Except.ok.inj h, (positions_fill hf).2.2.2.1⟩

end LiteralFill
