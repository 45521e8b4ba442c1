import LiteralFill.Proofs.Fill.Outermost
import LiteralFill.Proofs.Printer.Literals

namespace LiteralFill

/-- Every composite literal of a filled one has its elements on the lines that they start on, behind as
many tabs as there are literals around them. In a maximal run of entries on a line each whose keys are
not too long, the values start two characters behind the longest key. An element without a key, or of
several lines, is printed as it would be on its own, and widens no run. -/
theorem columns_format_fill {depth : Nat} {v : Viewpoint} {lit : Literal} {ty : Ty} {omitType : Bool}
    {filled : Filled} (h : fill depth v lit ty omitType = .ok filled)
    (hleaf : ∀ t ∈ filled.expr.tokens 0, '\n' ∉ t.text.toList) :
    let rows := (filled.expr.format filled.lines).toList.splitOn '\n'
    ∀ inside part, (inside, part) ∈ filled.expr.literals 0 →
      let tabs := List.replicate (inside + 1) '\t'
      let cells := printCells filled.lines (inside + 1) part.elts
      (∀ before run after, cells = before ++ (run ++ after) → IsRun before run after →
        (∀ c ∈ run, 0 < c.keyLength ∧ c.keyLength ≤ smallKey) →
        ∀ c ∈ run, ∃ key blanks, c.key? = some key ∧ key.length + blanks = maxKeyLength run + 1 ∧
          rows[c.firstLine - 1]? = some (tabs ++ (key.toList ++ ':' :: (List.replicate blanks ' ' ++
            c.value.toList)) ++ [','])) ∧
      ∀ c ∈ cells, ¬c.IsEntry →
        (tabs ++ c.text.toList ++ [',']).splitOn '\n' <+: rows.drop (c.firstLine - 1) := by
  obtain ⟨target, fields, entries, n, e, -, -, hexpr, hlines⟩ := of_fill_eq_ok h
  have hroom := e.advances_lt_lineCount
  have hdisplays : Displays filled.lines 1 (filled.expr.literals 0)
      (filled.expr.format filled.lines).toList (1 + e.advances) := by
    rw [hexpr] at hleaf ⊢
    exact e.displays_layOut lowestPrec 1 0 Nat.one_pos (by omega) hleaf
  intro rows inside part hpart tabs cells
  have hshows (c : Cell) (hc : c ∈ cells) :
      Shows filled.lines 1 (filled.expr.format filled.lines).toList inside part := by
    refine hdisplays.shows (inside, part) hpart fun hempty => ?_
    have hc : c ∈ printCells filled.lines (inside + 1) part.elts := hc
    rw [show part.elts = [] from hempty] at hc
    cases hc
  refine ⟨fun before run after hcells hrun hkeys c hc => ?_, fun c hc hentry => ?_⟩
  · have hmem : c ∈ cells := hcells ▸ List.mem_append_right before (List.mem_append_left after hc)
    exact (hshows c hmem).getElem?_of_run hcells hrun hkeys hc
  · exact (hshows c hc).splitOn_prefix_of_not_isEntry hc hentry

def recordScope : Scope := ⟨"example.com/app", "app"⟩

/-- `struct { ID int; Name string; At []int; Done bool }` -/
def recordType : Ty :=
  .struct [.declared "ID" (.basic .int) recordScope, .declared "Name" (.basic .string) recordScope,
    .declared "At" (.slice (.basic .int)) recordScope, .declared "Done" (.basic .bool) recordScope]

/-- `{At: []int{7}}` -/
def recordLiteral : Literal :=
  ⟨none, 0, [.entry "At" (.compositeLit (some (.arrayType 0 none (.name "int"))) 0
    [.basicLit .int "7" 0] 0)], 0⟩

def recordFilled : Filled :=
  ⟨.compositeLit none 1
    [.keyValue (.ident "ID" 2) 2 (.basicLit .int "0" 2),
      .keyValue (.ident "Name" 3) 3 (.basicLit .string "\"\"" 3),
      .keyValue (.ident "At" 4) 4 (.compositeLit (some (.arrayType 4 none (.ident "int" 4))) 4
        [.basicLit .int "7" 5] 6),
      .keyValue (.ident "Done" 7) 7 (.ident "false" 7)] 8, 9, []⟩

/-- The entry of three lines ends the run of the two before it. -/
theorem columns_format_fill_record :
    let id : Cell := ⟨some "ID", "0", 2, 2⟩
    let name : Cell := ⟨some "Name", "\"\"", 3, 3⟩
    let wide : Cell := ⟨some "At", "[]int\x7b\n\t\t7,\n\t\x7d", 4, 6⟩
    let done : Cell := ⟨some "Done", "false", 7, 7⟩
    fill 2 ⟨.empty, ⟨recordScope, []⟩⟩ recordLiteral recordType true = .ok recordFilled ∧
      (∀ t ∈ recordFilled.expr.tokens 0, '\n' ∉ t.text.toList) ∧
      IsRun [] [id, name] [wide, done] ∧ maxKeyLength [id, name] = 4 ∧
      ((recordFilled.expr.format recordFilled.lines).toList.splitOn '\n')[1]? =
        some "\tID:   0,".toList := by
  intro id name wide done
  have hfillable : Fillable ⟨.empty, ⟨recordScope, []⟩⟩ recordLiteral recordType (.root recordType) _ _ :=
    ⟨rfl, rfl, rfl, rfl, rfl⟩
  have hfill : fill 2 ⟨.empty, ⟨recordScope, []⟩⟩ recordLiteral recordType true = .ok recordFilled :=
    (fill_eq hfillable 1).trans rfl
  have hleaf : ∀ t ∈ recordFilled.expr.tokens 0, '\n' ∉ t.text.toList := by decide +kernel
  have hrun : IsRun [] [id, name] [wide, done] := ⟨by decide +kernel, nofun, by decide +kernel⟩
  have hwidth : maxKeyLength [id, name] = 4 := by decide
  have hcells : ∃ part, (0, part) ∈ recordFilled.expr.literals 0 ∧
      printCells recordFilled.lines 1 part.elts = [] ++ ([id, name] ++ [wide, done]) :=
    ⟨_, List.mem_cons_self, rfl⟩
  obtain ⟨part, hpart, hcells⟩ := hcells
  obtain ⟨key, blanks, hkey, hlength, hrow⟩ := (columns_format_fill hfill hleaf 0 part hpart).1
    [] [id, name] [wide, done] hcells hrun (by decide) id List.mem_cons_self
  cases hkey
  rw [hwidth] at hlength
  obtain rfl : blanks = 3 := Nat.add_left_cancel hlength
  exact ⟨hfill, hleaf, hrun, hwidth, hrow.trans (by decide)⟩

end LiteralFill
