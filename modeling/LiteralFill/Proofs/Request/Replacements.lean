import LiteralFill.Proofs.Index.Loader
import LiteralFill.Proofs.Locate.Sites
import LiteralFill.Proofs.Request.Edits

namespace LiteralFill

section Locate

variable {p : CheckedPackage} {files : SourceFiles} {path : Path}

theorem of_locateOffset_eq_ok {offset : Nat} {l : Located}
    (h : locateOffset p files path offset = .ok l) :
    ∃ sites source, lookupFile p files path = .ok (sites, source) ∧ l ∈ sites := by
  cases hl : lookupFile p files path with
  | error e =>
    rw [locateOffset, hl] at h
    cases h
  | ok found =>
    obtain ⟨sites, source⟩ := found
    rw [locateOffset_eq hl] at h
    split at h
    · cases h
    · cases hi : innermost? (sites.filter (·.site.contains offset)) with
      | none => rw [hi] at h; cases h
      | some x =>
        rw [hi] at h
        dsimp only at h
        split at h <;> cases h
        exact ⟨sites, source, rfl, (List.mem_filter.1 (mem_of_innermost? hi)).1⟩

theorem of_locateLine_eq_ok {line : Nat} {found : List Located}
    (h : locateLine p files path line = .ok found) :
    ∃ sites source, lookupFile p files path = .ok (sites, source) ∧ (∀ l ∈ found, l ∈ sites) ∧
      found.Pairwise fun a b => a.site.start ≤ b.site.start := by
  cases hl : lookupFile p files path with
  | error e =>
    rw [locateLine, hl] at h
    cases h
  | ok looked =>
    obtain ⟨sites, source⟩ := looked
    rw [locateLine_eq hl] at h
    obtain ⟨structs, hstructs, h⟩ := bind_eq_ok h
    split at h
    · cases h
    · cases h
      refine ⟨sites, source, rfl, fun l hmem => ?_, ?_⟩
      · have := (structSites_sublist hstructs).subset (List.mem_mergeSort.1 hmem)
        exact (List.mem_filter.1 this).1
      · exact sortedByStart_pairwise structs

/-- What is located are sites of the requested file, last first. -/
theorem Request.of_locate_eq_ok {r : Request} {loaded : Loaded} {located : List Located}
    (h : r.locate loaded = .ok located) :
    ∃ sites source, lookupFile loaded.package loaded.sources loaded.path = .ok (sites, source) ∧
      (∀ l ∈ located, l ∈ sites) ∧ located.Pairwise fun a b => b.site.start ≤ a.site.start := by
  have hline {line : Nat} {located : List Located}
      (h : (locateLine loaded.package loaded.sources loaded.path line).map List.reverse = .ok located) :
      ∃ sites source, lookupFile loaded.package loaded.sources loaded.path = .ok (sites, source) ∧
        (∀ l ∈ located, l ∈ sites) ∧ located.Pairwise fun a b => b.site.start ≤ a.site.start := by
    cases hl : locateLine loaded.package loaded.sources loaded.path line with
    | error e => rw [hl] at h; cases h
    | ok found =>
      rw [hl] at h
      cases h
      obtain ⟨sites, source, hlookup, hmem, hsorted⟩ := of_locateLine_eq_ok hl
      exact ⟨sites, source, hlookup, fun l hmem' => hmem l (List.mem_reverse.1 hmem'),
        List.pairwise_reverse.2 hsorted⟩
  unfold locate at h
  dsimp only at h
  split at h
  · rename_i offset line? _ _
    split at h
    · rename_i l _ hl
      cases h
      obtain ⟨sites, source, hlookup, hmem⟩ := of_locateOffset_eq_ok hl
      refine ⟨sites, source, hlookup, fun x hx => ?_, List.pairwise_singleton ..⟩
      rwa [List.mem_singleton.1 hx]
    · exact hline h
    · cases h
  · exact hline h
  · cases h

end Locate

section Answer

variable {r : Request} {loaded : Loaded} {produced : Produced}

theorem Request.answer_eq_ok_iff :
    r.answer loaded = .ok produced ↔
      ∃ located filled, r.locate loaded = .ok located ∧
        located.mapM (fillLocated loaded.package) = .ok filled ∧
        produced = ⟨filled.map (·.1), filled.flatMap fun (replacement, omitted) =>
          omitted.map fun o => ⟨loaded.sources.sourceAt loaded.path replacement.start, o⟩,
          loaded.sources⟩ := by
  constructor
  · intro h
    obtain ⟨located, hlocated, h⟩ := bind_eq_ok h
    obtain ⟨filled, hfilled, h⟩ := bind_eq_ok h
    cases h
    exact ⟨located, filled, mapError_eq_ok.1 hlocated, mapError_eq_ok.1 hfilled, rfl⟩
  · rintro ⟨located, filled, hlocated, hfilled, rfl⟩
    rw [answer, hlocated, mapError_ok]
    dsimp only [bind, Except.bind]
    rw [hfilled]
    rfl

/-- An answer replaces what was located, each literal in its place. -/
theorem Request.of_answer_eq_ok (h : r.answer loaded = .ok produced) :
    ∃ located, r.locate loaded = .ok located ∧
      produced.replacements.map (fun x => (x.start, x.stop)) =
        located.map fun l => (l.site.start, l.site.stop) := by
  obtain ⟨located, filled, hlocated, hfilled, rfl⟩ := answer_eq_ok_iff.1 h
  refine ⟨located, hlocated, ?_⟩
  rw [List.map_map]
  refine map_eq_of_mapM_eq_ok (fun l x hx => ?_) hfilled
  obtain ⟨_, -, hx⟩ := bind_eq_ok hx
  cases hx
  rfl

variable {l : IndexLoader Id} {source : SourceFile}

/-- The replacements in an answer come last first and lie in the text of the file. -/
theorem Request.spans_produce (hresolve : l.files.ResolvesAbsolute)
    (hload : Id.run (l.load r.file).run = .ok loaded)
    (hsource : (loaded.sources.find? loaded.path).bind loaded.sources.get? = some source)
    (h : Id.run (r.produce l.load).run = .ok produced) :
    (produced.replacements.Pairwise fun a b => b.start ≤ a.start) ∧
      ∀ x ∈ produced.replacements, x.start ≤ x.stop ∧ x.stop ≤ source.bytes.length := by
  rw [run_produce hload] at h
  split at h
  · cases h
  · obtain ⟨located, hlocated, hspans⟩ := of_answer_eq_ok h
    obtain ⟨sites, source', hlookup, hmem, hsorted⟩ := of_locate_eq_ok hlocated
    obtain rfl : source' = source := by
      unfold lookupFile at hlookup
      rw [hsource] at hlookup
      split at hlookup
      · rename_i hsome
        cases hsome
        cases hlookup
        rfl
      · cases hlookup
    have hbounds := IndexLoader.sites_inBounds_of_load hresolve hload hlookup
    constructor
    · have := List.pairwise_map (f := fun l : Located => (l.site.start, l.site.stop))
        (R := fun a b : Nat × Nat => b.1 ≤ a.1) |>.2 hsorted
      rw [← hspans] at this
      exact List.pairwise_map.1 this
    · intro x hx
      have : (x.start, x.stop) ∈ located.map fun l => (l.site.start, l.site.stop) := by
        rw [← hspans]
        exact List.mem_map_of_mem hx
      obtain ⟨y, hy, heq⟩ := List.mem_map.1 this
      obtain ⟨hstart, hstop⟩ := Prod.mk.inj heq
      rw [← hstart, ← hstop]
      exact hbounds y (hmem y hy)

/-- An answer's replacements are made one after the other in the text of the file. One overwrites what
is left of its own literal and nothing else exactly if each one before it lies behind that literal, or
inside it and is as long as what it stands for. A literal that is filled grows, so that the one around it
is overwritten only in part. -/
theorem Request.overwritesOwn_produce_iff (hresolve : l.files.ResolvesAbsolute)
    (hload : Id.run (l.load r.file).run = .ok loaded)
    (hsource : (loaded.sources.find? loaded.path).bind loaded.sources.get? = some source)
    (h : Id.run (r.produce l.load).run = .ok produced) {done rest : List Replacement}
    {next : Replacement} (hsplit : produced.replacements = done ++ next :: rest) :
    next.OverwritesOwn done source.bytes ↔
      ∀ d ∈ done, next.stop ≤ d.start ∨ (d.stop ≤ next.stop ∧ d.bytes.length = d.stop - d.start) := by
  obtain ⟨hsorted, hbounds⟩ := spans_produce hresolve hload hsource h
  rw [hsplit] at hsorted hbounds
  have hnext := hbounds next (List.mem_append_right _ List.mem_cons_self)
  refine Replacement.overwritesOwn_iff (fun d hd => ⟨?_, ?_⟩) hnext.1 hnext.2
  · exact (List.pairwise_append.1 hsorted).2.2 d hd next List.mem_cons_self
  · exact (hbounds d (List.mem_append_left _ hd)).1

end Answer

/-- Two literals on a line and a third one around them. -/
def pairsFile : CheckedFile :=
  let point : Literal := ⟨some (.name "Point"), 0, [], 0⟩
  let pair : Literal :=
    ⟨some (.name "Pair"), 0, [.entry "A" point.toExpr, .entry "B" point.toExpr], 0⟩
  ⟨⟨"main.go"⟩, [], [⟨0, 28, .named 1, pair, false⟩, ⟨8, 15, .named 0, point, false⟩,
    ⟨20, 27, .named 0, point, false⟩]⟩

def pairsSource : SourceFile := ⟨⟨"/app/main.go"⟩, "Pair\x7bA: Point\x7b\x7d, B: Point\x7b\x7d\x7d"⟩

def pairsPackage : CheckedPackage :=
  let scope : Scope := ⟨"app", "main"⟩
  ⟨scope, ⟨#[.declared "Point" scope (.struct [.declared "X" (.basic .bool) scope]),
    .declared "Pair" scope (.struct [.declared "A" (.named 0) scope, .declared "B" (.named 0) scope])]⟩,
    [pairsFile]⟩

def pairsIndex : String := r#"{
  "scope": {"path": "app", "name": "main"},
  "types": [
    {"name": "Point", "scope": {"path": "app", "name": "main"}, "exported": true, "underlying": {"struct":
      {"fields": [
        {"name": "X", "exported": true, "scope": {"path": "app", "name": "main"}, "ty": {"basic": "bool"}}]}}},
    {"name": "Pair", "scope": {"path": "app", "name": "main"}, "exported": true, "underlying": {"struct":
      {"fields": [
        {"name": "A", "exported": true, "scope": {"path": "app", "name": "main"}, "ty": {"named": 0}},
        {"name": "B", "exported": true, "scope": {"path": "app", "name": "main"}, "ty": {"named": 0}}]}}}],
  "files": [{"path": "main.go", "literals": [
    {"start": 0, "end": 28, "ty": {"named": 1}, "literal": {"ty": {"ident": {"name": "Pair"}}, "elts": [
      {"key_value": {"key": {"ident": {"name": "A"}},
        "value": {"composite_lit": {"ty": {"ident": {"name": "Point"}}}}}},
      {"key_value": {"key": {"ident": {"name": "B"}},
        "value": {"composite_lit": {"ty": {"ident": {"name": "Point"}}}}}}]}},
    {"start": 8, "end": 15, "ty": {"named": 0}, "literal": {"ty": {"ident": {"name": "Point"}}}},
    {"start": 20, "end": 27, "ty": {"named": 0}, "literal": {"ty": {"ident": {"name": "Point"}}}}]}]
}"#

def pairsLoader : IndexLoader Id where
  files :=
    { resolve := fun path => if path.isAbsolute then .ok path else .error .absent
      absolutize := fun path => .ok path.normalize
      read := fun path => .ok (if path = pairsSource.path then pairsSource.content else pairsIndex) }
  index? := none
  overlay := .empty

def pairsRequest : Request := ⟨⟨"/app/main.go"⟩, none, some 1⟩

def Loaded.pairs : Loaded :=
  ⟨pairsSource.path, { pairsPackage with files := [{ pairsFile with path := pairsSource.path }] },
    ⟨[pairsSource]⟩⟩

theorem pairsLoader_resolvesAbsolute : pairsLoader.files.ResolvesAbsolute := by
  intro path resolved h
  by_cases hpath : path.isAbsolute = true
  · have h : (if path.isAbsolute then Except.ok path else .error AccessError.absent) = .ok resolved := h
    rw [if_pos hpath] at h
    cases h
    exact hpath
  · simp [pairsLoader, hpath] at h

set_option maxRecDepth 8000 in
theorem readPackage?_pairsIndex : readPackage? pairsIndex = some pairsPackage := by
  -- the characters of a long literal are at hand; decoding them from its bytes takes the kernel minutes
  have h : pairsIndex.toList = _ := String.toList_ofList
  rw [readPackage?, Json.read?_of_toList_eq h]
  rfl

theorem load_pairs : Id.run (pairsLoader.load pairsRequest.file).run = .ok Loaded.pairs :=
  IndexLoader.load_eq_ok_iff.2 ⟨pairsSource.path, ⟨"/app/fillstruct-index.json"⟩, pairsIndex, pairsPackage,
    [({ pairsFile with path := pairsSource.path }, pairsSource)], rfl, rfl, rfl, readPackage?_pairsIndex,
    rfl, rfl, rfl⟩

def pairsLocated : List Located :=
  pairsFile.literals.zipIdx.map fun (site, i) => ⟨{ pairsFile with path := pairsSource.path }, i, site⟩

theorem locateLine_pairs :
    locateLine Loaded.pairs.package Loaded.pairs.sources Loaded.pairs.path 1 = .ok pairsLocated := by
  have hlookup : lookupFile Loaded.pairs.package Loaded.pairs.sources Loaded.pairs.path =
      .ok (pairsLocated, pairsSource) := rfl
  have hline : locateLine Loaded.pairs.package Loaded.pairs.sources Loaded.pairs.path 1 =
      .ok (pairsLocated.mergeSort fun a b => a.site.start ≤ b.site.start) := by
    rw [locateLine_eq hlookup]
    rfl
  rwa [List.mergeSort_of_pairwise (by decide)] at hline

theorem locate_pairs : pairsRequest.locate Loaded.pairs = .ok pairsLocated.reverse :=
  congrArg (Except.map List.reverse) locateLine_pairs

def pointFilled : Expr :=
  .compositeLit (some (.ident "Point" 1)) 1 [.keyValue (.ident "X" 2) 2 (.ident "false" 2)] 3

def pairFilled : Expr :=
  .compositeLit (some (.ident "Pair" 1)) 1
    [.keyValue (.ident "A" 2) 2 (.compositeLit (some (.ident "Point" 2)) 2 [] 2),
      .keyValue (.ident "B" 3) 3 (.compositeLit (some (.ident "Point" 3)) 3 [] 3)] 4

def pointCode : String := "Point\x7b\n\tX: false,\n\x7d"

def pairCode : String := "Pair\x7b\n\tA: Point\x7b\x7d,\n\tB: Point\x7b\x7d,\n\x7d"

theorem format_pointFilled : pointFilled.format 3 = pointCode := by
  simp only [pointFilled, Expr.format, Expr.print, printCells, brokenList, placeCells, Progress.next,
    Cell.size, Cell.text, String.contains_char_eq]
  decide +kernel

theorem format_pairFilled : pairFilled.format 4 = pairCode := by
  simp only [pairFilled, Expr.format, Expr.print, printCells, brokenList, placeCells, Progress.next,
    Cell.size, Cell.text, String.contains_char_eq]
  decide +kernel

theorem produce_pairs : Id.run (pairsRequest.produce pairsLoader.load).run =
    .ok ⟨[⟨20, 27, pointCode⟩, ⟨8, 15, pointCode⟩, ⟨0, 28, pairCode⟩], [], Loaded.pairs.sources⟩ := by
  have hfilled : pairsLocated.reverse.mapM (fillLocated Loaded.pairs.package) =
      .ok [(⟨20, 27, pointFilled.format 3⟩, []), (⟨8, 15, pointFilled.format 3⟩, []),
        (⟨0, 28, pairFilled.format 4⟩, [])] := rfl
  rw [format_pointFilled, format_pairFilled] at hfilled
  rw [Request.run_produce load_pairs]
  exact Request.answer_eq_ok_iff.2 ⟨_, _, locate_pairs, hfilled, rfl⟩

/-- Of two literals that follow each other, the second is replaced first and leaves the first alone. -/
theorem Request.overwritesOwn_produce_sibling :
    pairsLoader.files.ResolvesAbsolute ∧
      Id.run (pairsLoader.load pairsRequest.file).run = .ok Loaded.pairs ∧
      (Loaded.pairs.sources.find? Loaded.pairs.path).bind Loaded.pairs.sources.get? = some pairsSource ∧
      ∃ produced, Id.run (pairsRequest.produce pairsLoader.load).run = .ok produced ∧
        produced.replacements = [⟨20, 27, pointCode⟩] ++ ⟨8, 15, pointCode⟩ :: [⟨0, 28, pairCode⟩] ∧
        Replacement.OverwritesOwn ⟨8, 15, pointCode⟩ [⟨20, 27, pointCode⟩] pairsSource.bytes := by
  have hsource : (Loaded.pairs.sources.find? Loaded.pairs.path).bind Loaded.pairs.sources.get? =
      some pairsSource := rfl
  have hsplit : [⟨20, 27, pointCode⟩, ⟨8, 15, pointCode⟩, ⟨0, 28, pairCode⟩] =
      [(⟨20, 27, pointCode⟩ : Replacement)] ++ ⟨8, 15, pointCode⟩ :: [⟨0, 28, pairCode⟩] := rfl
  refine ⟨pairsLoader_resolvesAbsolute, load_pairs, hsource, _, produce_pairs, hsplit, ?_⟩
  apply (Request.overwritesOwn_produce_iff pairsLoader_resolvesAbsolute load_pairs hsource produce_pairs
    hsplit).2
  intro d hd
  obtain rfl := List.mem_singleton.1 hd
  exact .inl (by decide)

/-- The literal around two that have grown is overwritten up to its old end, and what is left of it
stays behind. -/
theorem Request.produce_not_overwritesOwn :
    ∃ produced done, Id.run (pairsRequest.produce pairsLoader.load).run = .ok produced ∧
      produced.replacements = done ++ [⟨0, 28, pairCode⟩] ∧
      ¬Replacement.OverwritesOwn ⟨0, 28, pairCode⟩ done pairsSource.bytes ∧
      overwriteAll produced.replacements pairsSource.bytes =
        SourceFile.bytes ⟨pairsSource.path, pairCode ++ " B: " ++ pointCode ++ "\x7d"⟩ := by
  refine ⟨_, [⟨20, 27, pointCode⟩, ⟨8, 15, pointCode⟩], produce_pairs, rfl, ?_, by decide +kernel⟩
  rw [Replacement.overwritesOwn_iff (by decide) (by decide) (by decide)]
  intro h
  have := h ⟨8, 15, pointCode⟩ (by decide)
  revert this
  decide

end LiteralFill
