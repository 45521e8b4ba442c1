import LiteralFill.CommandLine
import LiteralFill.Proofs.Request.Replacements

namespace LiteralFill

/-- A literal on its own, with its types called as in its own file. -/
def Located.fillAlone (p : CheckedPackage) (l : Located) : Except FillError Filled :=
  fill descentLimit ⟨p.types, ⟨p.scope, l.file.imports⟩⟩ l.site.literal l.site.ty l.site.typeElided

def Located.replacement (l : Located) (filled : Filled) : Replacement :=
  ⟨l.site.start, l.site.stop, filled.expr.format filled.lines⟩

def Located.omissions (loaded : Loaded) (l : Located) (filled : Filled) : List LocatedOmission :=
  filled.omitted.map fun o => ⟨loaded.sources.sourceAt loaded.path l.site.start, o⟩

/-- An answer about these literals of the requested file: what each of them is filled with on its own, in
their order, or the error of the first one that cannot be filled. -/
structure Answers (loaded : Loaded) (located : List Located) (outcome : Except ProduceError Produced) :
    Prop where
  requested : ∀ l ∈ located,
    loaded.package.file? loaded.path = some l.file ∧ l.file.literals[l.number]? = some l.site
  all_iff : ∀ produced, outcome = .ok produced ↔ ∃ filled : List (Located × Filled),
    filled.map (·.1) = located ∧ (∀ x ∈ filled, x.1.fillAlone loaded.package = .ok x.2) ∧
    produced = ⟨filled.map fun x => x.1.replacement x.2, filled.flatMap fun x => x.1.omissions loaded x.2,
      loaded.sources⟩
  first_iff : ∀ e, outcome = .error e ↔ ∃ before l after reason, located = before ++ l :: after ∧
    (∀ b ∈ before, ∃ filled, b.fillAlone loaded.package = .ok filled) ∧
    l.fillAlone loaded.package = .error reason ∧ e = .fill reason

/-- What the requested file has at a byte offset. -/
def Loaded.atOffset (loaded : Loaded) (offset : Nat) : Except LocateError Located :=
  locateOffset loaded.package loaded.sources loaded.path offset

/-- What the requested file has on a line, from the first literal to the last. -/
def Loaded.onLine (loaded : Loaded) (line : Nat) : Except LocateError (List Located) :=
  locateLine loaded.package loaded.sources loaded.path line

/-- What comes of a request when packages are loaded in this way. -/
def Request.outcome (r : Request) (load : Path → ExceptT LoadError Id Loaded) :
    Except ProduceError Produced :=
  Id.run (r.produce load).run

/-- The unsaved files that a run of the tool reads first. -/
def FillCommand.overlay (env : Environment Id) (c : FillCommand) : Except OverlayError Overlay :=
  if c.modified then Id.run (Overlay.ofArchive env.files env.current (Id.run env.stdin)) else .ok .empty

variable {r : Request} {loaded : Loaded} {located : List Located}

theorem fillLocated_eq (p : CheckedPackage) (l : Located) :
    fillLocated p l = (l.fillAlone p).map fun filled => (l.replacement filled, filled.omitted) := by
  rw [fillLocated, Located.fillAlone, CheckedPackage.qualifier]
  cases fill descentLimit ⟨p.types, ⟨p.scope, l.file.imports⟩⟩ l.site.literal l.site.ty l.site.typeElided <;>
    rfl

theorem fillLocated_eq_ok_iff {p : CheckedPackage} {l : Located} :
    (∃ x, fillLocated p l = .ok x) ↔ ∃ filled, l.fillAlone p = .ok filled := by
  rw [fillLocated_eq]
  cases l.fillAlone p <;> simp [Except.map]

theorem fillLocated_eq_error_iff {p : CheckedPackage} {l : Located} {e : FillError} :
    fillLocated p l = .error e ↔ l.fillAlone p = .error e := by
  rw [fillLocated_eq]
  cases l.fillAlone p <;> simp [Except.map]

theorem mapM_fillLocated_eq_ok_iff {p : CheckedPackage} {xs : List (Replacement × List Omission)} :
    located.mapM (fillLocated p) = .ok xs ↔ ∃ filled : List (Located × Filled),
      filled.map (·.1) = located ∧ (∀ x ∈ filled, x.1.fillAlone p = .ok x.2) ∧
      xs = filled.map fun x => (x.1.replacement x.2, x.2.omitted) := by
  rw [funext (fillLocated_eq p), mapM_map_eq_ok_iff]

theorem Request.locate_requested (h : r.locate loaded = .ok located) :
    ∀ l ∈ located,
      loaded.package.file? loaded.path = some l.file ∧ l.file.literals[l.number]? = some l.site := by
  obtain ⟨sites, source, hlookup, hmem, -⟩ := of_locate_eq_ok h
  intro l hl
  unfold lookupFile at hlookup
  split at hlookup
  · rename_i file _ hfile _
    cases hlookup
    obtain ⟨rfl, hsite⟩ := CheckedFile.mem_located_iff.1 (hmem l hl)
    exact ⟨hfile, hsite⟩
  · cases hlookup

theorem Request.answer_eq_error_iff (h : r.locate loaded = .ok located) {e : ProduceError} :
    r.answer loaded = .error e ↔
      ∃ reason, located.mapM (fillLocated loaded.package) = .error reason ∧ e = .fill reason := by
  rw [answer, h, mapError_ok]
  dsimp only [bind, Except.bind]
  cases located.mapM (fillLocated loaded.package) with
  | error reason => simp [eq_comm]
  | ok filled => simp [pure, Except.pure]

/-- Once literals are located, nothing but their filling decides on the answer. -/
theorem Request.answers_of_locate (h : r.locate loaded = .ok located) :
    Answers loaded located (r.answer loaded) where
  requested := locate_requested h
  all_iff produced := by
    rw [answer_eq_ok_iff]
    constructor
    · rintro ⟨located', x, hlocated, hx, rfl⟩
      obtain rfl := Except.ok.inj (h.symm.trans hlocated)
      obtain ⟨filled, hfst, hfilled, rfl⟩ := mapM_fillLocated_eq_ok_iff.1 hx
      refine ⟨filled, hfst, hfilled, ?_⟩
      rw [List.map_map, List.flatMap_map]
      rfl
    · rintro ⟨filled, hfst, hfilled, rfl⟩
      refine ⟨located, _, h, mapM_fillLocated_eq_ok_iff.2 ⟨filled, hfst, hfilled, rfl⟩, ?_⟩
      rw [List.map_map, List.flatMap_map]
      rfl
  first_iff e := by
    simp only [answer_eq_error_iff h, mapM_eq_error_iff, fillLocated_eq_ok_iff, fillLocated_eq_error_iff]
    constructor
    · rintro ⟨reason, ⟨before, l, after, rfl, hbefore, hl⟩, rfl⟩
      exact ⟨before, l, after, reason, rfl, hbefore, hl, rfl⟩
    · rintro ⟨before, l, after, reason, rfl, hbefore, hl, rfl⟩
      exact ⟨reason, ⟨before, l, after, rfl, hbefore, hl⟩, rfl⟩

theorem Request.answer_of_locate_eq_error {e : LocateError} (h : r.locate loaded = .error e) :
    r.answer loaded = .error (.locate e) := by
  rw [answer, h]
  rfl

section Locate

variable {offset line : Nat} {e : LocateError}

theorem Request.locate_of_offset {l : Located} (hoffset : r.offset? = some offset)
    (h : loaded.atOffset offset = .ok l) : r.locate loaded = .ok [l] := by
  rw [Loaded.atOffset] at h
  simp only [locate, hoffset, h]

theorem Request.locate_of_offset_error (hoffset : r.offset? = some offset)
    (h : loaded.atOffset offset = .error e) (he : e ≠ .notFound ∨ r.line? = none) :
    r.locate loaded = .error e := by
  rw [Loaded.atOffset] at h
  simp only [locate, hoffset, h]
  split
  · rename_i heq
    cases heq
  · rename_i line heq hline
    cases heq
    rcases he with he | he
    · exact absurd rfl he
    · rw [he] at hline
      cases hline
  · rename_i heq _
    cases heq
    rfl

theorem Request.locate_of_line (hline : r.line? = some line)
    (hoffset : ∀ offset, r.offset? = some offset → loaded.atOffset offset = .error .notFound) :
    r.locate loaded = (loaded.onLine line).map List.reverse := by
  cases ho : r.offset? with
  | none =>
    simp only [locate, ho, hline]
    rfl
  | some offset =>
    have hnone := hoffset offset ho
    rw [Loaded.atOffset] at hnone
    simp only [locate, ho, hline, hnone]
    rfl

end Locate

theorem Request.outcome_eq {load : Path → ExceptT LoadError Id Loaded}
    (hload : Id.run (load r.file).run = .ok loaded) (hposition : r.offset? ≠ none ∨ r.line? ≠ none) :
    r.outcome load = r.answer loaded := by
  rw [outcome, run_produce hload, if_neg]
  rw [Bool.and_eq_true, Option.isNone_iff_eq_none, Option.isNone_iff_eq_none]
  rintro ⟨hoffset, hline⟩
  exact hposition.elim (· hoffset) (· hline)

theorem Request.produce_of_no_position (hoffset : r.offset? = none) (hline : r.line? = none)
    {m : Type → Type} [Monad m] [LawfulMonad m] (load : Path → ExceptT LoadError m Loaded) :
    r.produce load = throw .missingPosition := by
  have hnone : (r.offset?.isNone && r.line?.isNone) = true := by rw [hoffset, hline]; rfl
  rw [produce, if_pos hnone]
  exact ExceptT.ext (by simp)

theorem FillCommand.run_eq (env : Environment Id) (c : FillCommand) :
    Id.run (c.run env) = match c.overlay env with
      | .error e => .ok (.failure env.color e.message)
      | .ok overlay => match c.request.outcome (IndexLoader.load ⟨env.files, c.index?, overlay⟩) with
        | .error e => if e.isFault then .error e else .ok (.failure env.color e.message)
        | .ok produced => .ok (produced.output env.color c.warnOmitted) := by
  obtain ⟨request, modified, index?, warnOmitted⟩ := c
  cases modified <;> rfl

/-- What becomes of a request. Without a position it fails before anything is loaded. The literal at the
offset is answered alone, whatever the line; the line is looked at only if there is no offset, or nothing
at it, and its literals are answered last first; all other errors of the search are returned. A literal
that cannot be filled takes the answers to the others along, and nothing of them is printed. -/
theorem Request.outcome_answers (r : Request) :
    (r.offset? = none → r.line? = none → ∀ (m : Type → Type) [Monad m] [LawfulMonad m]
      (load : Path → ExceptT LoadError m Loaded), r.produce load = throw .missingPosition) ∧
    ∀ (load : Path → ExceptT LoadError Id Loaded) (loaded : Loaded),
      Id.run (load r.file).run = .ok loaded →
      (∀ offset l, r.offset? = some offset → loaded.atOffset offset = .ok l →
        Answers loaded [l] (r.outcome load)) ∧
      (∀ offset e, r.offset? = some offset → loaded.atOffset offset = .error e →
        e ≠ .notFound ∨ r.line? = none → r.outcome load = .error (.locate e)) ∧
      (∀ line, r.line? = some line →
        (∀ offset, r.offset? = some offset → loaded.atOffset offset = .error .notFound) →
        (∀ e, loaded.onLine line = .error e → r.outcome load = .error (.locate e)) ∧
        ∀ found, loaded.onLine line = .ok found → Answers loaded found.reverse (r.outcome load)) ∧
      ∀ (env : Environment Id) (c : FillCommand) (overlay : Overlay), c.request = r →
        c.overlay env = .ok overlay → load = IndexLoader.load ⟨env.files, c.index?, overlay⟩ →
        ∀ e, r.outcome load = .error e → Id.run (c.run env) = if e.isFault then .error e
          else .ok ⟨"", (Diagnostic.error e.message).text env.color ++ "\n", false⟩ := by
  refine ⟨fun hoffset hline m _ _ load => ?_, fun load loaded hload => ?_⟩
  · exact produce_of_no_position hoffset hline load
  · refine ⟨fun offset l hoffset hl => ?_, fun offset e hoffset he hreturned => ?_,
      fun line hline hoffset => ?_, fun env c overlay hc hoverlay hindex e he => ?_⟩
    · rw [outcome_eq hload (.inl (by rw [hoffset]; nofun))]
      exact answers_of_locate (locate_of_offset hoffset hl)
    · rw [outcome_eq hload (.inl (by rw [hoffset]; nofun))]
      exact answer_of_locate_eq_error (locate_of_offset_error hoffset he hreturned)
    · have hlocate := locate_of_line hline hoffset
      rw [outcome_eq hload (.inr (by rw [hline]; nofun))]
      refine ⟨fun e he => ?_, fun found hfound => ?_⟩
      · rw [he] at hlocate
        exact answer_of_locate_eq_error hlocate
      · rw [hfound] at hlocate
        exact answers_of_locate hlocate
    · subst hc hindex
      rw [c.run_eq, hoverlay]
      simp only [he]
      rfl

/-- The three literals of a line, each filled on its own and the last one first. -/
theorem Request.outcome_answers_pairs :
    Id.run (pairsLoader.load pairsRequest.file).run = .ok Loaded.pairs ∧
      Loaded.pairs.onLine 1 = .ok pairsLocated ∧
      Answers Loaded.pairs pairsLocated.reverse (pairsRequest.outcome pairsLoader.load) := by
  obtain ⟨-, hanswers⟩ := Request.outcome_answers pairsRequest
  obtain ⟨-, -, hline, -⟩ := hanswers pairsLoader.load Loaded.pairs load_pairs
  exact ⟨load_pairs, locateLine_pairs, (hline 1 rfl nofun).2 pairsLocated locateLine_pairs⟩

end LiteralFill
