import LiteralFill.Proofs.Locate.Sites

namespace LiteralFill

namespace LiteralSite

/-- Both ends of the one site lie in the other. -/
def Within (s t : LiteralSite) : Prop := t.start ≤ s.start ∧ s.stop ≤ t.stop

/-- Two sites of different spans, one inside the other or without an offset in common. -/
def Nest (s t : LiteralSite) : Prop :=
  (s.start ≠ t.start ∨ s.stop ≠ t.stop) ∧
    (s.Within t ∨ t.Within s ∨ s.stop < t.start ∨ t.stop < s.start)

theorem Nest.symm {s t : LiteralSite} (h : s.Nest t) : t.Nest s :=
  ⟨h.1.imp Ne.symm Ne.symm, by rcases h.2 with h | h | h | h <;> simp [h]⟩

/-- The site among others that an offset belongs to most closely. -/
structure IsInnermost (s : LiteralSite) (sites : List LiteralSite) (offset : Nat) : Prop where
  mem : s ∈ sites
  contains : s.contains offset = true
  within : ∀ t ∈ sites, t.contains offset = true → s.Within t

theorem contains_iff {s : LiteralSite} {offset : Nat} :
    s.contains offset = true ↔ s.start ≤ offset ∧ offset ≤ s.stop := by
  simp [contains]

/-- Of two nested sites around an offset, the one that is no longer lies inside the other. -/
theorem Nest.within {s t : LiteralSite} {offset : Nat} (h : s.Nest t) (hs : s.contains offset = true)
    (ht : t.contains offset = true) (hspan : s.span ≤ t.span) : s.Within t := by
  rw [contains_iff] at hs ht
  obtain ⟨hne, h | h | h | h⟩ := h
  · exact h
  · unfold Within at h
    unfold span at hspan
    omega
  · omega
  · omega

theorem Nest.not_within {s t : LiteralSite} (h : s.Nest t) (hs : s.Within t) : ¬t.Within s := by
  intro ht
  unfold Within at hs ht
  rcases h.1 with hne | hne <;> omega

theorem IsInnermost.of_perm {s : LiteralSite} {sites sites' : List LiteralSite} {offset : Nat}
    (hperm : sites.Perm sites') (h : s.IsInnermost sites offset) : s.IsInnermost sites' offset :=
  ⟨hperm.mem_iff.1 h.mem, h.contains, fun t ht => h.within t (hperm.mem_iff.2 ht)⟩

end LiteralSite

section Innermost

variable {file : CheckedFile} {offset : Nat} (hnest : file.literals.Pairwise LiteralSite.Nest)
include hnest

theorem CheckedFile.eq_or_nest {l m : Located} (hl : l ∈ file.located) (hm : m ∈ file.located) :
    l = m ∨ l.site.Nest m.site := by
  have hpairs : file.located.Pairwise fun a b => a = b ∨ a.site.Nest b.site := by
    rw [← file.map_site_located, List.pairwise_map] at hnest
    exact hnest.imp .inr
  have : Std.Symm fun a b : Located => a = b ∨ a.site.Nest b.site :=
    ⟨fun a b h => h.imp Eq.symm LiteralSite.Nest.symm⟩
  exact hpairs.forall_of_forall (fun a _ => .inl rfl) hl hm

/-- Where sites nest, the shortest one around an offset is inside all the others. -/
theorem CheckedFile.innermost?_eq_some_iff {l : Located} :
    innermost? (file.located.filter (·.site.contains offset)) = some l ↔
      l ∈ file.located ∧ l.site.IsInnermost file.literals offset := by
  have of_eq {m : Located} (h : innermost? (file.located.filter (·.site.contains offset)) = some m) :
      m ∈ file.located ∧ m.site.IsInnermost file.literals offset := by
    obtain ⟨hmem, hcontains⟩ := List.mem_filter.1 (mem_of_innermost? h)
    refine ⟨hmem, file.site_mem_literals hmem, hcontains, fun t ht htcontains => ?_⟩
    obtain ⟨other, hother, rfl⟩ := file.exists_located ht
    rcases file.eq_or_nest hnest hmem hother with rfl | hne
    · exact ⟨Nat.le_refl _, Nat.le_refl _⟩
    · exact hne.within hcontains htcontains
        (span_le_of_innermost? h (List.mem_filter.2 ⟨hother, htcontains⟩))
  refine ⟨of_eq, fun ⟨hl, hinner⟩ => ?_⟩
  cases hi : innermost? (file.located.filter (·.site.contains offset)) with
  | none =>
    have : l ∈ file.located.filter (·.site.contains offset) := List.mem_filter.2 ⟨hl, hinner.contains⟩
    rw [innermost?_eq_none_iff.1 hi] at this
    cases this
  | some m =>
    obtain ⟨hm, hmost⟩ := of_eq hi
    rcases file.eq_or_nest hnest hm hl with rfl | hne
    · rfl
    · exact absurd (hinner.within m.site hmost.mem hmost.contains)
        (hne.not_within (hmost.within l.site hinner.mem hinner.contains))

theorem CheckedFile.exists_innermost?_iff {P : LiteralSite → Prop} :
    (∃ l, innermost? (file.located.filter (·.site.contains offset)) = some l ∧ P l.site) ↔
      ∃ s : LiteralSite, s.IsInnermost file.literals offset ∧ P s := by
  constructor
  · rintro ⟨l, hl, hp⟩
    exact ⟨l.site, ((file.innermost?_eq_some_iff hnest).1 hl).2, hp⟩
  · rintro ⟨s, hs, hp⟩
    obtain ⟨l, hl, rfl⟩ := file.exists_located hs.mem
    exact ⟨l, (file.innermost?_eq_some_iff hnest).2 ⟨hl, hs⟩, hp⟩

end Innermost

section Offset

variable {p p' : CheckedPackage} {files : SourceFiles} {path : Path} {file file' : CheckedFile}
  {source : SourceFile} {offset : Nat}

section Answer

variable (hlookup : lookupFile p files path = .ok (file.located, source))
  (hoffset : offset ≤ source.size)
include hlookup hoffset

theorem locateOffset_eq_match :
    locateOffset p files path offset =
      match innermost? (file.located.filter (·.site.contains offset)) with
      | none => .error .notFound
      | some l =>
        match l.isStruct p with
        | .ok true => .ok l
        | .ok false => .error .notFound
        | .error e => .error e :=
  (locateOffset_eq hlookup offset).trans (if_neg (Nat.not_lt.2 hoffset))

theorem locateOffset_eq_ok_iff {l : Located} :
    locateOffset p files path offset = .ok l ↔
      innermost? (file.located.filter (·.site.contains offset)) = some l ∧
        ∃ fields, p.types.structFields? l.site.ty = .ok (some fields) := by
  rw [locateOffset_eq_match hlookup hoffset, ← Located.isStruct_eq_true_iff]
  cases innermost? (file.located.filter (·.site.contains offset)) with
  | none => simp
  | some m =>
    dsimp only
    constructor
    · intro h
      split at h <;> cases h
      exact ⟨rfl, ‹_›⟩
    · rintro ⟨⟨⟩, hstruct⟩
      rw [hstruct]

theorem locateOffset_eq_notFound_iff :
    locateOffset p files path offset = .error .notFound ↔
      innermost? (file.located.filter (·.site.contains offset)) = none ∨
        ∃ l, innermost? (file.located.filter (·.site.contains offset)) = some l ∧
          p.types.structFields? l.site.ty = .ok none := by
  rw [locateOffset_eq_match hlookup hoffset]
  cases innermost? (file.located.filter (·.site.contains offset)) with
  | none => simp
  | some m =>
    have hfalse : m.isStruct p = .ok false ↔ _ := Located.isStruct_eq_false_iff
    rcases m.exists_isStruct_eq p with ⟨b, hb⟩ | ⟨fault, hf⟩
    · cases b <;> simp [hb, ← hfalse]
    · simp [hf, ← hfalse]

theorem locateOffset_eq_fault_iff {fault : Fault} :
    locateOffset p files path offset = .error (.fault fault) ↔
      ∃ l, innermost? (file.located.filter (·.site.contains offset)) = some l ∧
        p.types.structFields? l.site.ty = .error fault := by
  rw [locateOffset_eq_match hlookup hoffset]
  cases innermost? (file.located.filter (·.site.contains offset)) with
  | none => simp
  | some m =>
    have hfault : m.isStruct p = .error (.fault fault) ↔ _ := Located.isStruct_eq_fault_iff
    rcases m.exists_isStruct_eq p with ⟨b, hb⟩ | ⟨fault', hf⟩
    · cases b <;> simp [hb, ← hfault]
    · simp [hf, ← hfault]

end Answer

section Order

variable (hnest : file.literals.Pairwise LiteralSite.Nest) (hperm : file.literals.Perm file'.literals)
include hnest hperm

theorem CheckedFile.exists_innermost?_of_perm {l : Located}
    (h : innermost? (file.located.filter (·.site.contains offset)) = some l) :
    ∃ l', innermost? (file'.located.filter (·.site.contains offset)) = some l' ∧ l'.site = l.site := by
  have hnest' := hperm.pairwise hnest LiteralSite.Nest.symm
  obtain ⟨hmem, hinner⟩ := (file.innermost?_eq_some_iff hnest).1 h
  have hinner' := hinner.of_perm hperm
  obtain ⟨l', hmem', hsite⟩ := file'.exists_located hinner'.mem
  rw [← hsite] at hinner'
  exact ⟨l', (file'.innermost?_eq_some_iff hnest').2 ⟨hmem', hinner'⟩, hsite⟩

/-- The site that is found does not depend on the order in which the file lists its sites. -/
theorem locateOffset_map_site_of_perm (hlookup : lookupFile p files path = .ok (file.located, source))
    (hlookup' : lookupFile p' files path = .ok (file'.located, source)) (htypes : p'.types = p.types)
    (hoffset : offset ≤ source.size) :
    (locateOffset p' files path offset).map (·.site) =
      (locateOffset p files path offset).map (·.site) := by
  have hnest' := hperm.pairwise hnest LiteralSite.Nest.symm
  rw [locateOffset_eq_match hlookup hoffset, locateOffset_eq_match hlookup' hoffset]
  cases hi : innermost? (file.located.filter (·.site.contains offset)) with
  | none =>
    cases hi' : innermost? (file'.located.filter (·.site.contains offset)) with
    | none => rfl
    | some l' =>
      obtain ⟨l, hl, -⟩ := file'.exists_innermost?_of_perm hnest' hperm.symm hi'
      cases hi.symm.trans hl
  | some l =>
    obtain ⟨l', hi', hsite⟩ := file.exists_innermost?_of_perm hnest hperm hi
    have hstruct : l'.isStruct p' = l.isStruct p := by
      rw [Located.isStruct, htypes, hsite, Located.isStruct]
    rw [hi']
    dsimp only
    rw [hstruct]
    split <;> simp [Except.map, hsite]

end Order

/-- Where no two sites have an offset in common without one being inside the other, the struct literal
that is found at an offset is the innermost site around it, whatever the order of the sites. If that one
is no struct, nothing is found, and if its type leads nowhere, locating fails with it. -/
theorem locateOffset_of_nested (hfile : p.file? path = some file)
    (hsource : (files.find? path).bind files.get? = some source)
    (hnest : file.literals.Pairwise LiteralSite.Nest) (hoffset : offset ≤ source.size) :
    (∀ l, locateOffset p files path offset = .ok l ↔
      l.file = file ∧ file.literals[l.number]? = some l.site ∧
        l.site.IsInnermost file.literals offset ∧
        ∃ fields, p.types.structFields? l.site.ty = .ok (some fields)) ∧
    (locateOffset p files path offset = .error .notFound ↔
      (∀ s ∈ file.literals, s.contains offset = false) ∨
        ∃ s : LiteralSite, s.IsInnermost file.literals offset ∧ p.types.structFields? s.ty = .ok none) ∧
    (∀ fault, locateOffset p files path offset = .error (.fault fault) ↔
      ∃ s : LiteralSite, s.IsInnermost file.literals offset ∧
        p.types.structFields? s.ty = .error fault) ∧
    ∀ (p' : CheckedPackage) (file' : CheckedFile), p'.types = p.types → p'.file? path = some file' →
      file'.literals.Perm file.literals →
      (locateOffset p' files path offset).map (·.site) =
        (locateOffset p files path offset).map (·.site) := by
  have hlookup := lookupFile_eq_ok hfile hsource
  refine ⟨fun l => ?_, ?_, fun fault => ?_, fun p' file' htypes hfile' hperm => ?_⟩
  · rw [locateOffset_eq_ok_iff hlookup hoffset, file.innermost?_eq_some_iff hnest,
      CheckedFile.mem_located_iff]
    simp only [and_assoc]
  · rw [locateOffset_eq_notFound_iff hlookup hoffset, innermost?_eq_none_iff]
    refine or_congr ?_ (file.exists_innermost?_iff hnest (P := (p.types.structFields? ·.ty = .ok none)))
    rw [← file.map_site_located]
    simp
  · rw [locateOffset_eq_fault_iff hlookup hoffset]
    exact file.exists_innermost?_iff hnest (P := (p.types.structFields? ·.ty = .error fault))
  · exact locateOffset_map_site_of_perm hnest hperm.symm hlookup (lookupFile_eq_ok hfile' hsource) htypes
      hoffset

/-- A struct literal with a struct literal and a slice literal as elements, which its file lists last. -/
def nestedFile : CheckedFile :=
  ⟨⟨"/app/main.go"⟩, [], [⟨5, 8, .struct [], ⟨some (.name "U"), 0, [], 0⟩, false⟩,
    ⟨13, 18, .slice (.basic .bool), ⟨some (.name "[]B"), 0, [], 0⟩, false⟩,
    ⟨0, 19, .struct [], ⟨some (.name "T"), 0, [], 0⟩, false⟩]⟩

def nestedPackage : CheckedPackage := ⟨⟨"example.com/app", "main"⟩, .empty, [nestedFile]⟩

def nestedSources : SourceFiles := ⟨[⟨⟨"/app/main.go"⟩, "T\x7bA: U\x7b\x7d, B: []B\x7b\x7d\x7d"⟩]⟩

/-- Right behind an element, that element is found. In the slice, nothing is. -/
theorem locateOffset_of_nested_elements :
    nestedFile.literals.Pairwise LiteralSite.Nest ∧
      locateOffset nestedPackage nestedSources ⟨"/app/main.go"⟩ 8 =
        .ok ⟨nestedFile, 0, ⟨5, 8, .struct [], ⟨some (.name "U"), 0, [], 0⟩, false⟩⟩ ∧
      locateOffset nestedPackage nestedSources ⟨"/app/main.go"⟩ 16 = .error .notFound := by
  have hfile : nestedPackage.file? ⟨"/app/main.go"⟩ = some nestedFile := rfl
  have hsource : (nestedSources.find? ⟨"/app/main.go"⟩).bind nestedSources.get? =
      some ⟨⟨"/app/main.go"⟩, "T\x7bA: U\x7b\x7d, B: []B\x7b\x7d\x7d"⟩ := rfl
  have hnest : nestedFile.literals.Pairwise LiteralSite.Nest := by
    simp [nestedFile, LiteralSite.Nest, LiteralSite.Within]
  have hsize : (8 : Nat) ≤ 19 ∧ (16 : Nat) ≤ 19 := by decide
  refine ⟨hnest, ?_, ?_⟩
  · refine ((locateOffset_of_nested hfile hsource hnest hsize.1).1 _).2 ⟨rfl, rfl, ⟨?_, rfl, ?_⟩, [], rfl⟩
    · simp [nestedFile]
    · simp [nestedFile, LiteralSite.contains, LiteralSite.Within]
  · refine (locateOffset_of_nested hfile hsource hnest hsize.2).2.1.2
      (.inr ⟨⟨13, 18, .slice (.basic .bool), ⟨some (.name "[]B"), 0, [], 0⟩, false⟩, ⟨?_, rfl, ?_⟩, rfl⟩)
    · simp [nestedFile]
    · simp [nestedFile, LiteralSite.contains, LiteralSite.Within]

/-- An innermost site of a type that is not declared is neither found nor missing. -/
theorem locateOffset_stray :
    strayedFile.literals.Pairwise LiteralSite.Nest ∧
      locateOffset Loaded.strayed.package Loaded.strayed.sources ⟨"/app/main.go"⟩ 5 =
        .error (.fault (.dangling 7)) :=
  ⟨by simp [strayedFile, LiteralSite.Nest, LiteralSite.Within], rfl⟩

end Offset

end LiteralFill
