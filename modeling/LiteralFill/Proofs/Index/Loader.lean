import LiteralFill.Index.Loader
import LiteralFill.Locate
import LiteralFill.Proofs.Outcome

namespace LiteralFill

theorem run_bind_eq_ok {ε α β : Type} {x : ExceptT ε Id α} {f : α → ExceptT ε Id β} {b : β} :
    Id.run (x >>= f).run = .ok b ↔ ∃ a, Id.run x.run = .ok a ∧ Id.run (f a).run = .ok b := by
  change Id.run (ExceptT.bindCont f (Id.run x.run)) = .ok b ↔ _
  cases Id.run x.run with
  | error e => exact ⟨nofun, nofun⟩
  | ok a => exact ⟨fun h => ⟨a, rfl, h⟩, fun ⟨_, ha, h⟩ => Except.ok.inj ha ▸ h⟩

theorem Json.read?_of_toList_eq {text : String} {cs : List Char} (h : text.toList = cs) :
    read? text = (do
      let (value, rest) ← readValue? (2 * cs.length + 2) cs
      if (skipSpace rest).isEmpty then some value else none) := by
  rw [← h]
  rfl

/-- Whether every site of a file lies in a text of so many bytes. -/
def CheckedFile.InBounds (f : CheckedFile) (size : Nat) : Prop :=
  ∀ s ∈ f.literals, s.start ≤ s.stop ∧ s.stop ≤ size

theorem checkBounds_eq_ok_iff {f : CheckedFile} {size : Nat} :
    checkBounds f size = .ok () ↔ f.InBounds size := by
  unfold checkBounds
  split
  · rename_i s hs
    refine iff_of_false nofun fun h => ?_
    have hbounds := h s (List.mem_of_find?_eq_some hs)
    have := List.find?_some hs
    simp only [Bool.or_eq_true, decide_eq_true_eq] at this
    omega
  · rename_i hnone
    refine iff_of_true rfl fun s hs => ?_
    have := List.find?_eq_none.1 hnone s hs
    simp only [Bool.or_eq_true, decide_eq_true_eq] at this
    omega

/-- Paths that have been resolved start at the root. -/
def FileAccess.ResolvesAbsolute (files : FileAccess Id) : Prop :=
  ∀ p q, files.resolve p = .ok q → q.isAbsolute = true

theorem SourceFiles.find?_bind_get? (s : SourceFiles) (path : Path) :
    (s.find? path).bind s.get? = s.all.find? (·.path.same path) :=
  List.find?_eq_bind_findIdx?_getElem?.symm

/-- The file of no place on disk is at no path that starts at the root. -/
theorem SourceFiles.internalFile_not_same {path : Path} (h : path.isAbsolute = true) :
    internalFile.path.same path = false := by
  rw [Path.same, h]
  rfl

/-- The first file at a path and the first text at it belong together. -/
theorem find?_paths {files : List (CheckedFile × SourceFile)}
    (h : ∀ x ∈ files, x.1.path = x.2.path) (path : Path) :
    (files.map (·.1)).find? (·.path.same path) =
        (files.find? (·.1.path.same path)).map (·.1) ∧
      (files.map (·.2)).find? (·.path.same path) =
        (files.find? (·.1.path.same path)).map (·.2) := by
  induction files with
  | nil => exact ⟨rfl, rfl⟩
  | cons x rest ih =>
    have hx := h x List.mem_cons_self
    obtain ⟨hfile, hsource⟩ := ih fun y hy => h y (List.mem_cons_of_mem x hy)
    simp only [List.map_cons, List.find?_cons, ← hx]
    cases x.1.path.same path with
    | true => exact ⟨rfl, rfl⟩
    | false => exact ⟨hfile, hsource⟩

namespace IndexLoader

variable {l : IndexLoader Id}

theorem resolve_of_existing {path resolved : Path} (h : Id.run (l.existing path).run = .ok resolved) :
    l.files.resolve path = .ok resolved := by
  unfold existing at h
  obtain ⟨found, hfound, h⟩ := run_bind_eq_ok.1 h
  obtain rfl : l.files.resolve path = found := Except.ok.inj hfound
  split at h
  · rename_i hr
    cases h
    exact hr
  · cases h
  · cases h

/-- What holds of a loaded file and its text: the path is resolved as seen from `dir`, the text is the
content at it, and all sites lie in that text. -/
structure Loads (l : IndexLoader Id) (dir : Path) (x : CheckedFile × SourceFile) : Prop where
  path_eq : x.1.path = x.2.path
  resolved : ∃ p, x.1.path = Id.run (l.files.resolveAgainst dir p)
  content : Id.run (l.content x.1.path).run = .ok x.2.content
  inBounds : x.1.InBounds x.2.size

theorem loads_of_loadFiles {dir : Path} {fs : List CheckedFile}
    {files : List (CheckedFile × SourceFile)} (h : Id.run (l.loadFiles dir fs).run = .ok files) :
    ∀ x ∈ files, l.Loads dir x := by
  induction fs generalizing files with
  | nil =>
    cases h
    nofun
  | cons f rest ih =>
    rw [loadFiles] at h
    obtain ⟨path, hpath, h⟩ := run_bind_eq_ok.1 h
    obtain ⟨content, hcontent, h⟩ := run_bind_eq_ok.1 h
    obtain ⟨_, hbounds, h⟩ := run_bind_eq_ok.1 h
    obtain ⟨more, hmore, h⟩ := run_bind_eq_ok.1 h
    cases h
    intro x hx
    rcases List.mem_cons.1 hx with rfl | hx
    · exact ⟨rfl, ⟨f.path, (Except.ok.inj hpath).symm⟩, hcontent, checkBounds_eq_ok_iff.1 hbounds⟩
    · exact ih hmore x hx

/-- What is loaded once the file, the index, its types and the texts are in order. -/
theorem load_eq_ok_iff {file : Path} {loaded : Loaded} :
    Id.run (l.load file).run = .ok loaded ↔
      ∃ path index text package files, Id.run (l.existing file).run = .ok path ∧
        Id.run (l.existing (l.index?.getD (path.parent.join defaultIndexName))).run = .ok index ∧
        Id.run (l.stored index).run = .ok text ∧ readPackage? text = some package ∧
        package.types.validate = .ok () ∧
        Id.run (l.loadFiles index.parent package.files).run = .ok files ∧
        loaded = ⟨path, { package with files := files.map (·.1) }, ⟨files.map (·.2)⟩⟩ := by
  unfold load
  constructor
  · intro h
    obtain ⟨path, hpath, h⟩ := run_bind_eq_ok.1 h
    obtain ⟨index, hindex, h⟩ := run_bind_eq_ok.1 h
    obtain ⟨text, htext, h⟩ := run_bind_eq_ok.1 h
    split at h
    · rename_i package hread
      obtain ⟨_, hvalid, h⟩ := run_bind_eq_ok.1 h
      obtain ⟨files, hfiles, h⟩ := run_bind_eq_ok.1 h
      cases h
      exact ⟨path, index, text, package, files, hpath, hindex, htext, hread, mapError_eq_ok.1 hvalid,
        hfiles, rfl⟩
    · cases h
  · rintro ⟨path, index, text, package, files, hpath, hindex, htext, hread, hvalid, hfiles, rfl⟩
    refine run_bind_eq_ok.2 ⟨path, hpath, run_bind_eq_ok.2 ⟨index, hindex, ?_⟩⟩
    refine run_bind_eq_ok.2 ⟨text, htext, ?_⟩
    rw [hread]
    exact run_bind_eq_ok.2 ⟨(), mapError_eq_ok.2 hvalid, run_bind_eq_ok.2 ⟨files, hfiles, rfl⟩⟩

/-- The sites of the file that was asked for lie in its text. -/
theorem sites_inBounds_of_load (hresolve : l.files.ResolvesAbsolute) {file : Path} {loaded : Loaded}
    (h : Id.run (l.load file).run = .ok loaded) {sites : List Located} {source : SourceFile}
    (hl : lookupFile loaded.package loaded.sources loaded.path = .ok (sites, source)) :
    ∀ x ∈ sites, x.site.start ≤ x.site.stop ∧ x.site.stop ≤ source.size := by
  obtain ⟨path, index, text, package, files, hpath, -, -, -, -, hfiles, rfl⟩ := load_eq_ok_iff.1 h
  have hpairs := loads_of_loadFiles hfiles
  have hinternal := SourceFiles.internalFile_not_same (hresolve _ _ (resolve_of_existing hpath))
  obtain ⟨hfile, hsource⟩ := find?_paths (fun x hx => (hpairs x hx).path_eq) path
  simp only [lookupFile, SourceFiles.find?_bind_get?, SourceFiles.all, CheckedPackage.file?,
    List.find?_cons, hinternal, hfile, hsource] at hl
  cases hx : files.find? (·.1.path.same path) with
  | none => rw [hx] at hl; cases hl
  | some x =>
    rw [hx] at hl
    cases hl
    intro y hy
    obtain ⟨⟨s, i⟩, hs, rfl⟩ := List.mem_map.1 hy
    exact (hpairs x (List.mem_of_find?_eq_some hx)).inBounds s (List.fst_mem_of_mem_zipIdx hs)

end IndexLoader

end LiteralFill
