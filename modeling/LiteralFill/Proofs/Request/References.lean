import LiteralFill.Proofs.Fill.References
import LiteralFill.Request

namespace LiteralFill

/-- What goes wrong when the type of a site is followed, if anything does. -/
def Located.fault? (p : CheckedPackage) (l : Located) : Option Fault :=
  match p.types.underlying l.site.ty with
  | .error fault => some fault
  | .ok _ => none

/-- The sites whose types a request looks at, one after the other: the innermost one at the offset, and
those on the line if that is no struct literal. -/
def Request.examined (r : Request) (loaded : Loaded) : List Located :=
  match lookupFile loaded.package loaded.sources loaded.path with
  | .error _ => []
  | .ok (sites, source) =>
    let onLine := r.line?.elim [] fun line => sites.filter (source.covers line ·.site)
    match r.offset? with
    | none => onLine
    | some offset =>
      if source.size < offset then []
      else match innermost? (sites.filter (·.site.contains offset)) with
        | none => onLine
        | some l =>
          match l.isStruct loaded.package with
          | .ok true => [l]
          | _ => l :: onLine

variable {p : CheckedPackage}

theorem Located.fault?_eq_some_iff {l : Located} {fault : Fault} :
    l.fault? p = some fault ↔ p.types.underlying l.site.ty = .error fault := by
  unfold fault?
  cases p.types.underlying l.site.ty <;> simp

theorem Located.fault?_eq_none_iff {l : Located} :
    l.fault? p = none ↔ ∃ ty, p.types.underlying l.site.ty = .ok ty := by
  unfold fault?
  cases p.types.underlying l.site.ty <;> simp

theorem Located.isStruct_eq_error_iff {l : Located} {fault : Fault} :
    l.isStruct p = .error (.fault fault) ↔ l.fault? p = some fault := by
  unfold isStruct fault?
  cases p.types.underlying l.site.ty <;> simp

theorem Located.fault?_of_isStruct {l : Located} {b : Bool} (h : l.isStruct p = .ok b) :
    l.fault? p = none := by
  unfold isStruct at h
  unfold fault?
  cases hu : p.types.underlying l.site.ty with
  | error fault => rw [hu] at h; cases h
  | ok ty => rfl

theorem Located.exists_isStruct_eq (p : CheckedPackage) (l : Located) :
    (∃ b, l.isStruct p = .ok b) ∨ ∃ fault, l.isStruct p = .error (.fault fault) := by
  unfold isStruct
  cases p.types.underlying l.site.ty with
  | error fault => exact .inr ⟨fault, rfl⟩
  | ok ty => exact .inl ⟨ty.isStruct, rfl⟩

/-- The struct literals of a list of sites are found unless the type of one of the sites leads nowhere. -/
theorem structSites_eq_error_iff {ls : List Located} {fault : Fault} :
    structSites p ls = .error (.fault fault) ↔ ls.findSome? (·.fault? p) = some fault := by
  induction ls with
  | nil => simp [structSites]
  | cons l rest ih =>
    rw [structSites, List.findSome?_cons]
    rcases l.exists_isStruct_eq p with ⟨b, hb⟩ | ⟨fault', hf⟩
    · rw [hb, Located.fault?_of_isStruct hb]
      dsimp only
      rw [← ih]
      cases structSites p rest with
      | error e => simp [bind, Except.bind]
      | ok found => cases b <;> simp [bind, Except.bind, pure, Except.pure]
    · rw [hf, Located.isStruct_eq_error_iff.1 hf]
      simp [bind, Except.bind]

section Lookup

variable {files : SourceFiles} {path : Path} {sites : List Located} {source : SourceFile}

theorem locateLine_eq (h : lookupFile p files path = .ok (sites, source)) (line : Nat) :
    locateLine p files path line =
      structSites p (sites.filter (source.covers line ·.site)) >>= fun found =>
        if found.isEmpty then .error .notFound
        else .ok (found.mergeSort fun a b => a.site.start ≤ b.site.start) := by
  rw [locateLine, h]
  rfl

theorem locateLine_eq_fault_iff (h : lookupFile p files path = .ok (sites, source)) {line : Nat}
    {fault : Fault} :
    locateLine p files path line = .error (.fault fault) ↔
      (sites.filter (source.covers line ·.site)).findSome? (·.fault? p) = some fault := by
  rw [locateLine_eq h, ← structSites_eq_error_iff]
  cases structSites p (sites.filter (source.covers line ·.site)) with
  | error e => simp [bind, Except.bind]
  | ok found => by_cases hf : found.isEmpty = true <;> simp [bind, Except.bind, hf]

theorem locateOffset_eq (h : lookupFile p files path = .ok (sites, source)) (offset : Nat) :
    locateOffset p files path offset =
      if source.size < offset then .error (.offsetBeyondFile source.size offset)
      else match innermost? (sites.filter (·.site.contains offset)) with
        | none => .error .notFound
        | some l =>
          match l.isStruct p with
          | .ok true => .ok l
          | .ok false => .error .notFound
          | .error e => .error e := by
  rw [locateOffset, h]
  dsimp only [bind, Except.bind]
  split
  · rfl
  · cases innermost? (sites.filter (·.site.contains offset)) with
    | none => rfl
    | some l =>
      dsimp only
      cases l.isStruct p with
      | error e => rfl
      | ok b => cases b <;> rfl

end Lookup

theorem lookupFile_eq_error {files : SourceFiles} {path : Path} {e : LocateError}
    (h : lookupFile p files path = .error e) : e = .fileNotInPackage path := by
  unfold lookupFile at h
  split at h <;> cases h
  rfl

/-- Locating fails for the type table exactly if following the type of a site that it looks at does. -/
theorem Request.locate_eq_fault_iff {r : Request} {loaded : Loaded} {fault : Fault} :
    r.locate loaded = .error (.fault fault) ↔
      (r.examined loaded).findSome? (·.fault? loaded.package) = some fault := by
  cases hl : lookupFile loaded.package loaded.sources loaded.path with
  | error e =>
    obtain rfl := lookupFile_eq_error hl
    simp only [locate, examined, hl, locateOffset, locateLine]
    cases r.offset? with
    | none => cases r.line? <;> simp [bind, Except.bind, Except.map]
    | some offset => cases r.line? <;> simp [bind, Except.bind]
  | ok found =>
    obtain ⟨sites, source⟩ := found
    have hline (line : Nat) :
        ((locateLine loaded.package loaded.sources loaded.path line).map List.reverse =
          .error (.fault fault)) ↔
          (sites.filter (source.covers line ·.site)).findSome? (·.fault? loaded.package) =
            some fault := by
      rw [← locateLine_eq_fault_iff hl]
      cases locateLine loaded.package loaded.sources loaded.path line <;> simp [Except.map]
    simp only [locate, examined, hl]
    cases r.offset? with
    | none =>
      cases r.line? with
      | none => simp
      | some line => exact hline line
    | some offset =>
      simp only [locateOffset_eq hl]
      by_cases hsize : source.size < offset
      · cases r.line? <;> simp [hsize]
      · simp only [hsize, ↓reduceIte]
        cases innermost? (sites.filter (·.site.contains offset)) with
        | none =>
          cases r.line? with
          | none => simp
          | some line => exact hline line
        | some l =>
          dsimp only
          rcases l.exists_isStruct_eq loaded.package with ⟨b, hb⟩ | ⟨fault', hf⟩
          · have hnone := Located.fault?_of_isStruct hb
            cases b with
            | true => simp [hb, hnone]
            | false =>
              cases r.line? with
              | none => simp [hb, hnone]
              | some line => simpa [hb, hnone] using hline line
          · have hsome := Located.isStruct_eq_error_iff.1 hf
            cases r.line? <;> simp [hf, hsome]

section Produce

variable {r : Request} {loaded : Loaded}

theorem Request.answer_eq_locate_error_iff {e : LocateError} :
    r.answer loaded = .error (.locate e) ↔ r.locate loaded = .error e := by
  unfold answer
  cases r.locate loaded with
  | error e' => simp [bind, Except.bind]
  | ok located =>
    simp only [mapError_ok, bind, Except.bind]
    cases located.mapM (fillLocated loaded.package) <;> simp [pure, Except.pure]

theorem Request.answer_ne_fill_dangling (decl : Nat) :
    r.answer loaded ≠ .error (.fill (.fault (.dangling decl))) := by
  intro h
  unfold answer at h
  rcases bind_eq_error h with h | ⟨located, -, h⟩
  · obtain ⟨e, -, ⟨⟩⟩ := mapError_eq_error.1 h
  · obtain ⟨e, h, ⟨⟩⟩ := mapError_eq_error.1 (bind_pure_eq_error h)
    obtain ⟨l, -, h⟩ := exists_of_mapM_eq_error h
    exact fill_ne_dangling _ _ _ _ _ decl (bind_pure_eq_error h)

theorem Request.run_produce {load : Path → ExceptT LoadError Id Loaded}
    (hload : Id.run (load r.file).run = .ok loaded) :
    Id.run (r.produce load).run =
      if r.offset?.isNone && r.line?.isNone then .error .missingPosition else r.answer loaded := by
  have hload : load r.file = pure loaded := hload
  unfold produce
  split
  · rfl
  · rw [hload]
    rfl

theorem Request.examined_of_no_position (hoffset : r.offset? = none) (hline : r.line? = none) :
    r.examined loaded = [] := by
  unfold examined
  rw [hoffset, hline]
  cases lookupFile loaded.package loaded.sources loaded.path <;> rfl

/-- A request about a package with a valid type table asks for a declaration that is not there exactly
if the type of a site that locating looks at is itself such a reference. Nothing has checked that type by
then; filling checks it before it follows it. -/
theorem Request.produce_dangling_iff {load : Path → ExceptT LoadError Id Loaded}
    (hload : Id.run (load r.file).run = .ok loaded)
    (ht : loaded.package.types.validate = .ok ()) (decl : Nat) :
    (Id.run (r.produce load).run = .error (.locate (.fault (.dangling decl))) ↔
      ∃ before l after, r.examined loaded = before ++ l :: after ∧
        (∀ l ∈ before, ∃ ty, loaded.package.types.underlying l.site.ty = .ok ty) ∧
        l.site.ty = .named decl ∧ loaded.package.types.size ≤ decl) ∧
      Id.run (r.produce load).run ≠ .error (.fill (.fault (.dangling decl))) := by
  have hclosed : loaded.package.types.Closed := (TypeTable.validate_eq_ok_iff.1 ht).1
  rw [run_produce hload]
  split
  · rename_i hnone
    obtain ⟨hoffset, hline⟩ : r.offset? = none ∧ r.line? = none := by simpa using hnone
    rw [examined_of_no_position hoffset hline]
    exact ⟨by simp, nofun⟩
  · refine ⟨?_, answer_ne_fill_dangling decl⟩
    rw [answer_eq_locate_error_iff, locate_eq_fault_iff, List.findSome?_eq_some_iff]
    simp only [Located.fault?_eq_some_iff, Located.fault?_eq_none_iff,
      hclosed.underlying_dangling_iff]
    constructor
    · rintro ⟨before, l, after, heq, hl, hbefore⟩
      exact ⟨before, l, after, heq, hbefore, hl⟩
    · rintro ⟨before, l, after, heq, hbefore, hl⟩
      exact ⟨before, l, after, heq, hl, hbefore⟩

end Produce

/-- A slice literal and, as its element, a literal of a type that is not declared. -/
def strayedFile : CheckedFile :=
  ⟨⟨"/app/main.go"⟩, [], [⟨0, 7, .slice (.named 7), ⟨some (.name "[]T"), 0, [], 0⟩, false⟩,
    ⟨4, 6, .named 7, ⟨none, 0, [], 0⟩, true⟩]⟩

def Loaded.strayed : Loaded :=
  ⟨⟨"/app/main.go"⟩, ⟨⟨"example.com/app", "main"⟩, .empty, [strayedFile]⟩,
    ⟨[⟨⟨"/app/main.go"⟩, "[]T\x7b\x7b\x7d\x7d"⟩]⟩⟩

def loadStrayed (_ : Path) : ExceptT LoadError Id Loaded := pure Loaded.strayed

/-- Of the two literals on the line, only the type of the second is asked for in vain. -/
theorem Request.produce_dangling_element :
    Id.run (loadStrayed ⟨"/app/main.go"⟩).run = .ok Loaded.strayed ∧
      Loaded.strayed.package.types.validate = .ok () ∧
      Id.run (Request.produce ⟨⟨"/app/main.go"⟩, none, some 1⟩ loadStrayed).run =
        .error (.locate (.fault (.dangling 7))) := by
  have hload : Id.run (loadStrayed ⟨"/app/main.go"⟩).run = .ok Loaded.strayed := rfl
  have ht : Loaded.strayed.package.types.validate = .ok () := rfl
  have hexamined : Request.examined ⟨⟨"/app/main.go"⟩, none, some 1⟩ Loaded.strayed =
      [⟨strayedFile, 0, ⟨0, 7, .slice (.named 7), ⟨some (.name "[]T"), 0, [], 0⟩, false⟩⟩] ++
        ⟨strayedFile, 1, ⟨4, 6, .named 7, ⟨none, 0, [], 0⟩, true⟩⟩ :: [] := rfl
  refine ⟨hload, ht, (Request.produce_dangling_iff hload ht 7).1.2 ⟨_, _, _, hexamined, ?_, rfl, ?_⟩⟩
  · intro l hl
    obtain rfl := List.mem_singleton.1 hl
    exact ⟨.slice (.named 7), rfl⟩
  · exact Nat.zero_le 7

/-- The type of a site is followed before anything has looked whether it is in the table. -/
theorem Request.produce_dangling_site :
    Loaded.strayed.package.types.validate = .ok () ∧
      Id.run (Request.produce ⟨⟨"/app/main.go"⟩, some 5, none⟩ loadStrayed).run =
        .error (.locate (.fault (.dangling 7))) :=
  ⟨rfl, rfl⟩

end LiteralFill
