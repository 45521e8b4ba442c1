import LiteralFill.FileTree
import LiteralFill.Proofs.Index.Loader
import LiteralFill.Proofs.Overlay.Encoding
import LiteralFill.Proofs.Path.Canonical
import LiteralFill.Proofs.SourceFiles.Lines

namespace LiteralFill

/-- A file of a tree is read where its names lead to it. -/
theorem FileTree.read_eq_ok {t : FileTree} {p : Path} (names : List String) {text : String}
    (hlength : tooLong p = false) (hnames : t.resolveNames p = .ok names)
    (hentry : t.entry? names = some (.file (utf8Bytes text))) : t.read p = .ok text := by
  have htext : String.fromUTF8? (utf8Bytes text).toByteArray = some text := utf8Text?_utf8Bytes text
  simp only [read, hlength, Bool.false_eq_true, ↓reduceIte, hnames, bind, Except.bind, hentry, htext]

namespace IndexLoader

variable {l : IndexLoader Id}

theorem stored_eq_ok_iff {path : Path} {text : String} :
    Id.run (l.stored path).run = .ok text ↔ l.files.read path = .ok text := by
  unfold stored
  rw [run_bind_eq_ok]
  constructor
  · rintro ⟨found, hfound, h⟩
    obtain rfl : l.files.read path = found := Except.ok.inj hfound
    split at h
    · rename_i hread
      cases h
      exact hread
    · cases h
    · cases h
  · intro hread
    exact ⟨.ok text, congrArg Except.ok hread, rfl⟩

theorem content_eq_ok_iff {path : Path} {text : String} :
    Id.run (l.content path).run = .ok text ↔
      l.overlay.get? path = some text ∨ l.overlay.get? path = none ∧ l.files.read path = .ok text := by
  unfold content
  split
  · rename_i unsaved hget
    rw [hget, Option.some.injEq]
    exact ⟨fun h => .inl (Except.ok.inj h), fun h => h.elim (congrArg Except.ok) nofun⟩
  · rename_i hget
    rw [hget, stored_eq_ok_iff]
    exact ⟨fun h => .inr ⟨rfl, h⟩, fun h => h.elim nofun And.right⟩

/-- Of the files that are loaded, those at one path have one text. -/
theorem Loads.content_eq (hresolve : l.files.ResolvesCanonical)
    (habsolutize : l.files.AbsolutizesCanonical) {dir : Path} (hdir : dir.isAbsolute = true) {x y : CheckedFile × SourceFile} (hx : l.Loads dir x)
    (hy : l.Loads dir y) (h : x.2.path.same y.1.path = true) : x.2.content = y.2.content := by
  have hcanonical {z : CheckedFile × SourceFile} (hz : l.Loads dir z) : z.1.path.IsCanonical := by
    obtain ⟨p, hp⟩ := hz.resolved
    exact hp ▸ hresolve.resolveAgainst habsolutize hdir p
  have hpath : x.1.path = y.1.path := (hcanonical hx).eq_of_same (hcanonical hy) (hx.path_eq ▸ h)
  exact Except.ok.inj (hx.content.symm.trans (hpath ▸ hy.content))

/-- Every file of a loaded package is found by its path, also where the index has that path more than
once. What is found is the unsaved text of the file if there is one, else the text on disk. In it lie all
sites of the file, so that no site has a negative length and no line begins behind a site that is in it. -/
theorem sources_of_load (hresolve : l.files.ResolvesCanonical)
    (habsolutize : l.files.AbsolutizesCanonical) {file : Path} {loaded : Loaded}
    (h : Id.run (l.load file).run = .ok loaded) {f : CheckedFile} (hf : f ∈ loaded.package.files) :
    ∃ key source, loaded.sources.find? f.path = some key ∧ loaded.sources.get? key = some source ∧
      (l.overlay.get? f.path = some source.content ∨
        l.overlay.get? f.path = none ∧ l.files.read f.path = .ok source.content) ∧
      ∀ s ∈ f.literals, s.start ≤ s.stop ∧ s.stop ≤ source.size ∧ s.start + s.span = s.stop ∧
        (∃ start, source.HasLineStart s.start start) ∧ ∃ start, source.HasLineStart s.stop start := by
  obtain ⟨path, index, text, package, files, -, -, -, -, -, hfiles, rfl⟩ := load_eq_ok_iff.1 h
  obtain ⟨x, hx, rfl⟩ := List.mem_map.1 hf
  have hdir : index.parent.isAbsolute = true := Path.isAbsolute_ofNames _
  have hloads := loads_of_loadFiles hfiles
  obtain ⟨p, hp⟩ := (hloads x hx).resolved
  have habsolute := hp ▸ (hresolve.resolveAgainst habsolutize hdir p).isAbsolute
  -- the first text at the path may belong to another entry of the index
  obtain ⟨source, hsource⟩ : ∃ source, (files.map (·.2)).find? (·.path.same x.1.path) = some source :=
    Option.isSome_iff_exists.1 (List.find?_isSome.2
      ⟨x.2, List.mem_map_of_mem hx, (hloads x hx).path_eq ▸ Path.same_refl _⟩)
  obtain ⟨y, hy, rfl⟩ := List.mem_map.1 (List.mem_of_find?_eq_some hsource)
  have hsame := List.find?_some hsource
  have hcontent : y.2.content = x.2.content :=
    (hloads y hy).content_eq hresolve habsolutize hdir (hloads x hx) hsame
  have hfound := SourceFiles.find?_bind_get? ⟨files.map (·.2)⟩ x.1.path
  rw [SourceFiles.all, List.find?_cons, SourceFiles.internalFile_not_same habsolute, hsource] at hfound
  obtain ⟨key, hkey, hget⟩ := Option.bind_eq_some_iff.1 hfound
  refine ⟨key, y.2, hkey, hget, hcontent ▸ content_eq_ok_iff.1 (hloads x hx).content, fun s hs => ?_⟩
  obtain ⟨hle, hsize⟩ := (hloads x hx).inBounds s hs
  have hsize : s.stop ≤ y.2.size := hsize.trans_eq (congrArg String.utf8ByteSize hcontent.symm)
  exact ⟨hle, hsize, Nat.add_sub_cancel' hle, y.2.exists_hasLineStart (hle.trans hsize),
    y.2.exists_hasLineStart hsize⟩

/-- An index with two entries for one file, the second of them by a link. -/
def linkedIndex : String := r#"{"scope": {"path": "app", "name": "main"}, "files": [{"path": "main.go"},
  {"path": "alias.go", "literals": [{"start": 10, "end": 13, "ty": {"basic": "bool"}, "literal": {}}]}]}"#

/-- The file and its index, where the text of the file on disk is shorter than the unsaved one. -/
def linkedTree : FileTree :=
  ⟨[(["w"], .folder), (["w", "fillstruct-index.json"], .file (utf8Bytes linkedIndex)),
    (["w", "main.go"], .file (utf8Bytes "é")), (["w", "alias.go"], .link ⟨"../w/main.go"⟩)], ["w"]⟩

def linkedLoader : IndexLoader Id :=
  ⟨linkedTree.access, none, ⟨[(⟨"/w/main.go"⟩, "//\n\nvar p=T\x7b\x7d")]⟩⟩

def linkedFile : CheckedFile :=
  ⟨⟨"/w/main.go"⟩, [], [⟨10, 13, .basic .bool, ⟨none, 0, [], 0⟩, false⟩]⟩

def linkedLoaded : Loaded :=
  let source : SourceFile := ⟨⟨"/w/main.go"⟩, "//\n\nvar p=T\x7b\x7d"⟩
  ⟨⟨"/w/main.go"⟩, ⟨⟨"app", "main"⟩, .empty, [⟨⟨"/w/main.go"⟩, [], []⟩, linkedFile]⟩, ⟨[source, source]⟩⟩

set_option maxRecDepth 8000 in
theorem readPackage?_linkedIndex : readPackage? linkedIndex = some ⟨⟨"app", "main"⟩, .empty,
    [⟨⟨"main.go"⟩, [], []⟩, { linkedFile with path := ⟨"alias.go"⟩ }]⟩ := by
  have h : linkedIndex.toList = _ := String.toList_ofList
  rw [readPackage?, Json.read?_of_toList_eq h]
  rfl

theorem load_linked : Id.run (linkedLoader.load ⟨"alias.go"⟩).run = .ok linkedLoaded := by
  have hindex : linkedTree.read ⟨"/w/fillstruct-index.json"⟩ = .ok linkedIndex :=
    FileTree.read_eq_ok ["w", "fillstruct-index.json"] (by decide) (by rfl) (by rfl)
  have hread : linkedLoader.files.read = linkedTree.read := rfl
  rw [← hread] at hindex
  exact load_eq_ok_iff.2 ⟨⟨"/w/main.go"⟩, ⟨"/w/fillstruct-index.json"⟩, linkedIndex, _, _, by rfl, by rfl,
    stored_eq_ok_iff.2 hindex, readPackage?_linkedIndex, rfl, rfl, rfl⟩

/-- The second entry of the index has its site in the unsaved text, which is found by the path of both. -/
theorem sources_of_load_linked :
    linkedLoader.files.ResolvesCanonical ∧ linkedLoader.files.AbsolutizesCanonical ∧
      Id.run (linkedLoader.load ⟨"alias.go"⟩).run = .ok linkedLoaded ∧
      linkedFile ∈ linkedLoaded.package.files ∧
      ∃ source, (linkedLoaded.sources.find? ⟨"/w/main.go"⟩).bind linkedLoaded.sources.get? = some source ∧
        source.content = "//\n\nvar p=T\x7b\x7d" ∧ source.size = 13 ∧
        ∃ start, source.HasLineStart 10 start := by
  have hresolve : linkedLoader.files.ResolvesCanonical :=
    linkedTree.access_resolvesCanonical (by simp [linkedTree, IsName])
  have habsolutize : linkedLoader.files.AbsolutizesCanonical := linkedTree.access_absolutizesCanonical
  have hmem : linkedFile ∈ linkedLoaded.package.files := List.mem_cons_of_mem _ List.mem_cons_self
  obtain ⟨key, source, hfind, hget, hcontent, hsites⟩ := sources_of_load hresolve habsolutize load_linked hmem
  have hunsaved : linkedLoader.overlay.get? linkedFile.path = some "//\n\nvar p=T\x7b\x7d" := rfl
  rw [hunsaved] at hcontent
  obtain ⟨-, -, -, hstart, -⟩ := hsites _ List.mem_cons_self
  rcases hcontent with h | ⟨⟨⟩, -⟩
  have htext := (Option.some.inj h).symm
  refine ⟨hresolve, habsolutize, load_linked, hmem, source, ?_, htext, ?_, hstart⟩
  · exact Option.bind_eq_some_iff.2 ⟨key, hfind, hget⟩
  · rw [SourceFile.size, htext]
    rfl

end IndexLoader

end LiteralFill
