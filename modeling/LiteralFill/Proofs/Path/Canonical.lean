import LiteralFill.FileTree

namespace LiteralFill

/-- A name of its own: not empty, no dot, and in one piece. -/
def IsName (name : String) : Prop := name ≠ "" ∧ name ≠ "." ∧ '/' ∉ name.toList

theorem slash_notMem_of_mem_slashPieces {cs piece : List Char} (h : piece ∈ slashPieces cs) :
    '/' ∉ piece := by
  induction cs using slashPieces.induct generalizing piece with
  | case1 => simp_all [slashPieces]
  | case2 rest ih =>
    rw [slashPieces] at h
    rcases List.mem_cons.1 h with rfl | h
    · exact List.not_mem_nil
    · exact ih h
  | case3 c rest hc hnil ih =>
    rw [slashPieces, hnil] at h
    · simp only [List.mem_singleton] at h
      rw [h, List.mem_singleton]
      exact fun hslash => hc hslash.symm
    · exact hc
  | case4 c rest hc first more hrest ih =>
    rw [slashPieces, hrest] at h
    · rw [hrest] at ih
      rcases List.mem_cons.1 h with rfl | h
      · have := ih List.mem_cons_self
        simp [this, Ne.symm hc]
      · exact ih (List.mem_cons_of_mem _ h)
    · exact hc

theorem slashPieces_of_notMem {cs : List Char} (h : '/' ∉ cs) : slashPieces cs = [cs] := by
  induction cs with
  | nil => rfl
  | cons c rest ih =>
    obtain ⟨hc, hrest⟩ := not_or.1 (mt List.mem_cons.2 h)
    rw [slashPieces.eq_3 _ _ (Ne.symm hc), ih hrest]

theorem slashPieces_append {piece : List Char} (h : '/' ∉ piece) (rest : List Char) :
    slashPieces (piece ++ '/' :: rest) = piece :: slashPieces rest := by
  induction piece with
  | nil => rfl
  | cons c piece ih =>
    obtain ⟨hc, hpiece⟩ := not_or.1 (mt List.mem_cons.2 h)
    rw [List.cons_append, slashPieces.eq_3 _ _ (Ne.symm hc), ih hpiece]

theorem slashPieces_intercalate {pieces : List (List Char)} (hne : pieces ≠ [])
    (h : ∀ piece ∈ pieces, '/' ∉ piece) : slashPieces (['/'].intercalate pieces) = pieces := by
  induction pieces with
  | nil => exact absurd rfl hne
  | cons piece rest ih =>
    obtain ⟨hpiece, hrest⟩ := List.forall_mem_cons.1 h
    cases rest with
    | nil => rw [List.intercalate_singleton, slashPieces_of_notMem hpiece]
    | cons next rest =>
      rw [List.intercalate_cons_cons, List.append_assoc, List.singleton_append,
        slashPieces_append hpiece, ih (List.cons_ne_nil _ _) hrest]

namespace Path

/-- A path written as nothing but a slash before each of its names. -/
def IsCanonical (p : Path) : Prop := p = ofNames p.names

theorem isAbsolute_ofNames (names : List String) : (ofNames names).isAbsolute = true := by
  simp [isAbsolute, ofNames]

theorem IsCanonical.isAbsolute {p : Path} (h : p.IsCanonical) : p.isAbsolute = true := by
  rw [h]
  exact isAbsolute_ofNames _

/-- Of two spellings of one path only one is canonical. -/
theorem IsCanonical.eq_of_same {p q : Path} (hp : p.IsCanonical) (hq : q.IsCanonical)
    (h : p.same q = true) : p = q := by
  rw [hp, hq, (same_iff.1 h).2]

theorem pieces_ofNames (names : List String) (h : ∀ n ∈ names, '/' ∉ n.toList) :
    (ofNames names).pieces = "" :: if names = [] then [""] else names := by
  have htext : (ofNames names).text.toList = '/' :: ['/'].intercalate (names.map String.toList) := by
    simp [ofNames, String.toList_intercalate]
  rw [pieces, htext, slashPieces]
  cases names with
  | nil => rfl
  | cons n rest =>
    have hsplit : slashPieces (['/'].intercalate ((n :: rest).map String.toList)) = _ :=
      slashPieces_intercalate (by simp) (by simpa using h)
    rw [List.map_cons, hsplit]
    simp

theorem names_ofNames {names : List String} (h : ∀ n ∈ names, IsName n) : (ofNames names).names = names := by
  rw [Path.names, pieces_ofNames names fun n hn => (h n hn).2.2, List.head?_cons]
  cases names with
  | nil => decide
  | cons n rest =>
    rw [if_neg (by decide), if_neg (List.cons_ne_nil _ _), List.filter_cons_of_neg (by decide)]
    exact List.filter_eq_self.2 fun m hm => by simp [(h m hm).1, (h m hm).2.1]

theorem isCanonical_ofNames {names : List String} (h : ∀ n ∈ names, IsName n) :
    (ofNames names).IsCanonical := by
  rw [IsCanonical, names_ofNames h]

theorem slash_notMem_of_mem_pieces {p : Path} {n : String} (h : n ∈ p.pieces) : '/' ∉ n.toList := by
  obtain ⟨piece, hpiece, rfl⟩ := List.mem_map.1 h
  rw [String.toList_ofList]
  exact slash_notMem_of_mem_slashPieces hpiece

theorem head?_pieces_of_isAbsolute {p : Path} (h : p.isAbsolute = true) : p.pieces.head? = some "" := by
  have hhead : p.text.toList.head? = some '/' := eq_of_beq h
  obtain ⟨rest, hrest⟩ := List.head?_eq_some_iff.1 hhead
  rw [pieces, hrest, slashPieces]
  rfl

theorem isName_of_mem_names {p : Path} (hp : p.isAbsolute = true) {n : String} (h : n ∈ p.names) :
    IsName n := by
  rw [names, head?_pieces_of_isAbsolute hp, if_neg (by decide)] at h
  obtain ⟨hmem, hkeep⟩ := List.mem_filter.1 h
  simp only [ne_eq, Bool.and_eq_true, decide_eq_true_eq] at hkeep
  exact ⟨hkeep.1, hkeep.2, slash_notMem_of_mem_pieces hmem⟩

theorem isName_of_mem_stepInto {names : List String} {name : String} (h : ∀ n ∈ names, IsName n)
    (hname : IsName name) : ∀ n ∈ stepInto names name, IsName n := by
  intro n hn
  rw [stepInto] at hn
  split at hn
  · exact h n ((List.dropLast_sublist _).subset hn)
  · rcases List.mem_append.1 hn with hn | hn
    · exact h n hn
    · exact List.mem_singleton.1 hn ▸ hname

theorem isName_of_mem_foldl_stepInto {names start : List String} (hstart : ∀ n ∈ start, IsName n)
    (h : ∀ n ∈ names, IsName n) : ∀ n ∈ names.foldl stepInto start, IsName n := by
  induction names generalizing start with
  | nil => exact hstart
  | cons name rest ih =>
    obtain ⟨hname, hrest⟩ := List.forall_mem_cons.1 h
    exact ih (isName_of_mem_stepInto hstart hname) hrest

theorem isCanonical_normalize {p : Path} (h : p.isAbsolute = true) : p.normalize.IsCanonical :=
  isCanonical_ofNames (isName_of_mem_foldl_stepInto nofun fun _ => isName_of_mem_names h)

theorem isAbsolute_join {dir p : Path} (h : dir.isAbsolute = true) : (dir.join p).isAbsolute = true := by
  have hhead : dir.text.toList.head? = some '/' := eq_of_beq h
  obtain ⟨rest, hrest⟩ := List.head?_eq_some_iff.1 hhead
  unfold join
  split
  · assumption
  · split <;> simp [isAbsolute, hrest]

end Path

/-- Paths that have been resolved are canonical. -/
def FileAccess.ResolvesCanonical (files : FileAccess Id) : Prop :=
  ∀ p q, files.resolve p = .ok q → q.IsCanonical

/-- Paths that start at the root can be made absolute as they are written, and are canonical then. -/
def FileAccess.AbsolutizesCanonical (files : FileAccess Id) : Prop :=
  ∀ p, p.isAbsolute = true → ∃ q, files.absolutize p = .ok q ∧ q.IsCanonical

namespace FileAccess

variable {files : FileAccess Id}

/-- A path seen from a directory gets its canonical spelling, whether it exists or not. -/
theorem ResolvesCanonical.resolveAgainst (h : files.ResolvesCanonical) (habsolute : files.AbsolutizesCanonical)
    {dir : Path} (hdir : dir.isAbsolute = true) (p : Path) :
    (Id.run (files.resolveAgainst dir p)).IsCanonical := by
  obtain ⟨q, hq, hcanonical⟩ := habsolute (dir.join p) (Path.isAbsolute_join hdir)
  cases hresolve : files.resolve (dir.join p) with
  | ok path =>
    have hpath : Id.run (files.resolveAgainst dir p) = path := by
      simp only [FileAccess.resolveAgainst, hresolve]
      rfl
    exact hpath ▸ h _ _ hresolve
  | error e =>
    have hpath : Id.run (files.resolveAgainst dir p) = q := by
      simp only [FileAccess.resolveAgainst, hresolve, hq]
      rfl
    exact hpath ▸ hcanonical

end FileAccess

namespace FileTree

variable {t : FileTree}

theorem isName_of_walkWith {enter : List String → List String → Except AccessError (List String)}
    (henter : ∀ here rest names, (∀ n ∈ here, IsName n) → (∀ n ∈ rest, '/' ∉ n.toList) →
      enter here rest = .ok names → ∀ n ∈ names, IsName n) {here rest names : List String}
    (hhere : ∀ n ∈ here, IsName n) (hrest : ∀ n ∈ rest, '/' ∉ n.toList)
    (h : t.walkWith enter here rest = .ok names) : ∀ n ∈ names, IsName n := by
  induction rest generalizing here with
  | nil =>
    cases h
    exact hhere
  | cons name rest ih =>
    obtain ⟨hname, hrest⟩ := List.forall_mem_cons.1 hrest
    rw [walkWith] at h
    split at h
    · cases h
    split at h
    · exact ih hhere hrest h
    rename_i hplain
    split at h
    · exact ih (fun n hn => hhere n ((List.dropLast_sublist _).subset hn)) hrest h
    split at h
    · cases h
    split at h
    · cases h
    · refine henter _ _ _ ?_ ?_ h
      · split
        · nofun
        · exact hhere
      · exact List.forall_mem_append.2 ⟨fun _ => Path.slash_notMem_of_mem_pieces, hrest⟩
    · simp only [Bool.or_eq_true, decide_eq_true_eq, not_or] at hplain
      exact ih (List.forall_mem_append.2 ⟨hhere, List.forall_mem_singleton.2 ⟨hplain.1, hplain.2, hname⟩⟩)
        hrest h

theorem isName_of_walk {links : Nat} {here rest names : List String} (hhere : ∀ n ∈ here, IsName n)
    (hrest : ∀ n ∈ rest, '/' ∉ n.toList) (h : t.walk links here rest = .ok names) :
    ∀ n ∈ names, IsName n := by
  induction links generalizing here rest names with
  | zero => exact isName_of_walkWith (fun _ _ _ _ _ h => by cases h) hhere hrest h
  | succ links ih => exact isName_of_walkWith (fun _ _ _ hh hr => ih hh hr) hhere hrest h

/-- Links are followed name by name, so that what is found stands under names only. -/
theorem access_resolvesCanonical (t : FileTree) (h : ∀ n ∈ t.current, IsName n) :
    t.access.ResolvesCanonical := by
  intro p q hq
  change t.resolve p = .ok q at hq
  unfold resolve at hq
  split at hq
  · rename_i names hnames
    cases hq
    refine Path.isCanonical_ofNames ?_
    unfold resolveNames at hnames
    split at hnames
    · cases hnames
    split at hnames
    · cases hnames
    refine isName_of_walk ?_ (fun _ => Path.slash_notMem_of_mem_pieces) hnames
    split
    · nofun
    · exact h
  · cases hq

theorem access_absolutizesCanonical (t : FileTree) : t.access.AbsolutizesCanonical := fun p _ =>
  ⟨t.absolutize p, rfl, Path.isCanonical_normalize (Path.isAbsolute_join (Path.isAbsolute_ofNames _))⟩

end FileTree

end LiteralFill
