import LiteralFill.Proofs.Locate.Innermost
import LiteralFill.Proofs.SourceFiles.Lines

namespace LiteralFill

section Lines

variable {f : SourceFile} {s : LiteralSite} {line : Nat}

/-- Whether a line has a byte of a site. -/
def SourceFile.HasByteOn (f : SourceFile) (line : Nat) (s : LiteralSite) : Prop :=
  ∃ offset, s.start ≤ offset ∧ offset < s.stop ∧ f.lineAt offset = line

/-- A site of at least one byte that the text has room for, the last of which ends no line. -/
structure LiteralSite.FitsIn (s : LiteralSite) (f : SourceFile) : Prop where
  start_lt_stop : s.start < s.stop
  stop_le_size : s.stop ≤ f.size
  last_ne_newline : f.bytes[s.stop - 1]? ≠ some newlineByte

/-- What stands right behind such a site is still on the line of its last byte. -/
theorem LiteralSite.FitsIn.lineAt_stop (h : s.FitsIn f) : f.lineAt s.stop = f.lineAt (s.stop - 1) := by
  obtain ⟨hlt, hsize, hlast⟩ := h
  have hb := List.getElem?_eq_getElem (l := f.bytes) (i := s.stop - 1)
    (by rw [SourceFile.length_bytes]; omega)
  have hnext := f.lineAt_succ hb
  rw [if_neg fun hnewline => hlast (by rw [hb, hnewline]), Nat.add_zero] at hnext
  rwa [Nat.sub_add_cancel (by omega)] at hnext

theorem LiteralSite.FitsIn.covers_iff (h : s.FitsIn f) : f.covers line s = true ↔ f.HasByteOn line s := by
  have hlt := h.start_lt_stop
  simp only [SourceFile.covers, Bool.and_eq_true, decide_eq_true_eq, h.lineAt_stop]
  constructor
  · rintro ⟨hstart, hstop⟩
    have hsize := h.stop_le_size
    obtain ⟨offset, hfrom, hto, hline⟩ := f.exists_lineAt_eq (by omega) (by omega) hstart hstop
    exact ⟨offset, hfrom, by omega, hline⟩
  · rintro ⟨offset, hfrom, hto, rfl⟩
    exact ⟨f.lineAt_mono hfrom, f.lineAt_mono (by omega)⟩

/-- A site reaches into the line of each offset that belongs to it, the one right behind it included. -/
theorem SourceFile.covers_lineAt (f : SourceFile) {offset : Nat} (h : s.contains offset = true) :
    f.covers (f.lineAt offset) s = true := by
  rw [LiteralSite.contains_iff] at h
  simp only [covers, Bool.and_eq_true, decide_eq_true_eq]
  exact ⟨f.lineAt_mono h.1, f.lineAt_mono h.2⟩

end Lines

section Sorted

/-- By where they start; those that start together as their file lists them. -/
def Located.Before (a b : Located) : Prop :=
  a.site.start < b.site.start ∨ a.site.start = b.site.start ∧ a.number < b.number

instance : Std.Irrefl Located.Before := ⟨fun a h => by unfold Located.Before at h; omega⟩

instance : Std.Antisymm Located.Before :=
  ⟨fun a b hab hba => by unfold Located.Before at hab hba; omega⟩

variable {ls : List Located}

/-- Sorting keeps the order of those that start together. -/
theorem filter_sortedByStart (ls : List Located) (start : Nat) :
    (sortedByStart ls).filter (·.site.start = start) = ls.filter (·.site.start = start) := by
  have hsame : (ls.filter (·.site.start = start)).Pairwise fun a b =>
      decide (a.site.start ≤ b.site.start) = true := by
    refine List.pairwise_of_forall_mem_list fun a ha b hb => ?_
    rw [List.mem_filter, decide_eq_true_eq] at ha hb
    exact decide_eq_true (Nat.le_of_eq (ha.2.trans hb.2.symm))
  have hsub := (List.sublist_mergeSort Located.start_le_trans Located.start_le_total hsame
    List.filter_sublist).filter (·.site.start = start)
  rw [List.filter_filter] at hsub
  simp only [Bool.and_self] at hsub
  exact (hsub.eq_of_length ((List.mergeSort_perm ..).filter _).length_eq.symm).symm

theorem sortedByStart_before (h : ls.Pairwise fun a b => a.number < b.number) :
    (sortedByStart ls).Pairwise Located.Before := by
  rw [List.pairwise_iff_forall_sublist]
  intro a b hab
  have hle := List.pairwise_iff_forall_sublist.1 (sortedByStart_pairwise ls) hab
  rcases Nat.lt_or_eq_of_le hle with hlt | heq
  · exact .inl hlt
  · have hsame := hab.filter (·.site.start = a.site.start)
    rw [filter_sortedByStart] at hsame
    simp only [heq, decide_true, List.filter_cons_of_pos, List.filter_nil] at hsame
    exact .inr ⟨heq, List.pairwise_iff_forall_sublist.1 h (hsame.trans List.filter_sublist)⟩

end Sorted

section Line

variable {p : CheckedPackage} {files : SourceFiles} {path : Path} {file : CheckedFile}
  {source : SourceFile} {line : Nat} {found : List Located}

theorem CheckedFile.located_pairwise (file : CheckedFile) :
    file.located.Pairwise fun a b => a.number < b.number := by
  have h : (file.literals.zipIdx.map Prod.snd).Pairwise (· < ·) := by
    rw [List.zipIdx_map_snd]
    exact List.pairwise_lt_range'
  rw [List.pairwise_map] at h
  rw [located, List.pairwise_map]
  exact h

theorem CheckedFile.mem_filter_covers_iff (hfits : ∀ s ∈ file.literals, s.FitsIn source) {l : Located} :
    l ∈ file.located.filter (source.covers line ·.site) ↔
      l ∈ file.located ∧ source.HasByteOn line l.site := by
  rw [List.mem_filter]
  exact and_congr_right fun hl => (hfits l.site (file.site_mem_literals hl)).covers_iff

variable (hlookup : lookupFile p files path = .ok (file.located, source))
include hlookup

theorem locateLine_eq_ok_iff :
    locateLine p files path line = .ok found ↔
      ∃ structs, structSites p (file.located.filter (source.covers line ·.site)) = .ok structs ∧
        structs ≠ [] ∧ found = sortedByStart structs := by
  rw [locateLine_eq hlookup]
  constructor
  · intro h
    obtain ⟨structs, hstructs, h⟩ := bind_eq_ok h
    split at h
    · cases h
    · rename_i hne
      cases h
      exact ⟨structs, hstructs, by simpa using hne, rfl⟩
  · rintro ⟨structs, hstructs, hne, rfl⟩
    rw [hstructs]
    dsimp only [bind, Except.bind]
    rw [if_neg (by simpa using hne), sortedByStart]

theorem locateLine_eq_notFound_iff :
    locateLine p files path line = .error .notFound ↔
      structSites p (file.located.filter (source.covers line ·.site)) = .ok [] := by
  rw [locateLine_eq hlookup]
  constructor
  · intro h
    rcases bind_eq_error h with h | ⟨structs, hstructs, h⟩
    · obtain ⟨fault, ⟨⟩, -⟩ := exists_fault_of_structSites h
    · split at h
      · rename_i hnil
        rw [hstructs, List.isEmpty_iff.1 hnil]
      · cases h
  · intro h
    rw [h]
    rfl

/-- The sites of a line are found, or there are none, or the type of one of them leads nowhere. -/
theorem locateLine_cases (line : Nat) :
    (∃ found, locateLine p files path line = .ok found) ∨
      locateLine p files path line = .error .notFound ∨
      ∃ fault, locateLine p files path line = .error (.fault fault) := by
  rw [locateLine_eq hlookup]
  cases hs : structSites p (file.located.filter (source.covers line ·.site)) with
  | error e =>
    obtain ⟨fault, rfl, -⟩ := exists_fault_of_structSites hs
    exact .inr (.inr ⟨fault, rfl⟩)
  | ok structs =>
    cases structs with
    | nil => exact .inr (.inl rfl)
    | cons l rest => exact .inl ⟨_, rfl⟩

theorem pairwise_before_of_locateLine (h : locateLine p files path line = .ok found) :
    found.Pairwise Located.Before := by
  obtain ⟨structs, hstructs, -, rfl⟩ := (locateLine_eq_ok_iff hlookup).1 h
  exact sortedByStart_before
    (file.located_pairwise.sublist ((structSites_sublist hstructs).trans List.filter_sublist))

variable (hfits : ∀ s ∈ file.literals, s.FitsIn source)
include hfits

theorem mem_iff_of_locateLine (h : locateLine p files path line = .ok found) {l : Located} :
    l ∈ found ↔ l ∈ file.located ∧ source.HasByteOn line l.site ∧
      ∃ fields, p.types.structFields? l.site.ty = .ok (some fields) := by
  obtain ⟨structs, hstructs, -, rfl⟩ := (locateLine_eq_ok_iff hlookup).1 h
  rw [mem_sortedByStart_iff, mem_structSites_iff hstructs, file.mem_filter_covers_iff hfits,
    Located.isStruct_eq_true_iff, and_assoc]

theorem exists_fault_of_locateLine_iff :
    (∃ fault, locateLine p files path line = .error (.fault fault)) ↔
      ∃ s ∈ file.literals, source.HasByteOn line s ∧ ∃ fault, p.types.structFields? s.ty = .error fault := by
  simp only [locateLine_eq_fault_iff hlookup]
  constructor
  · rintro ⟨fault, h⟩
    obtain ⟨l, hl, hf⟩ := List.exists_of_findSome?_eq_some h
    obtain ⟨hl, hon⟩ := (file.mem_filter_covers_iff hfits).1 hl
    exact ⟨l.site, file.site_mem_literals hl, hon, fault,
      Located.isStruct_eq_fault_iff.1 (Located.isStruct_eq_error_iff.2 hf)⟩
  · rintro ⟨s, hs, hon, fault, hf⟩
    obtain ⟨l, hl, rfl⟩ := file.exists_located hs
    have hfault : l.fault? p = some fault :=
      Located.isStruct_eq_error_iff.1 (Located.isStruct_eq_fault_iff.2 hf)
    rw [← Option.isSome_iff_exists, List.findSome?_isSome_iff]
    exact ⟨l, (file.mem_filter_covers_iff hfits).2 ⟨hl, hon⟩, by rw [hfault]; rfl⟩

theorem locateLine_eq_notFound_iff_forall :
    locateLine p files path line = .error .notFound ↔
      ∀ s ∈ file.literals, source.HasByteOn line s → p.types.structFields? s.ty = .ok none := by
  rw [locateLine_eq_notFound_iff hlookup]
  constructor
  · intro h s hs hon
    obtain ⟨l, hl, rfl⟩ := file.exists_located hs
    have hmem := (file.mem_filter_covers_iff hfits).2 ⟨hl, hon⟩
    obtain ⟨b, hb⟩ := (structSites_eq_ok_iff.1 h).1 l hmem
    cases b with
    | true => exact absurd ((mem_structSites_iff h).2 ⟨hmem, hb⟩) List.not_mem_nil
    | false => exact Located.isStruct_eq_false_iff.1 hb
  · intro h
    have hfalse {l : Located} (hl : l ∈ file.located.filter (source.covers line ·.site)) :
        l.isStruct p = .ok false := by
      obtain ⟨hl, hon⟩ := (file.mem_filter_covers_iff hfits).1 hl
      exact Located.isStruct_eq_false_iff.2 (h l.site (file.site_mem_literals hl) hon)
    cases hs : structSites p (file.located.filter (source.covers line ·.site)) with
    | error e =>
      obtain ⟨fault, -, l, hl, hf⟩ := exists_fault_of_structSites hs
      rw [hfalse hl] at hf
      cases hf
    | ok structs =>
      congr
      refine List.eq_nil_iff_forall_not_mem.2 fun l hl => ?_
      obtain ⟨hl, htrue⟩ := (mem_structSites_iff hs).1 hl
      rw [hfalse hl] at htrue
      cases htrue

theorem locateLine_eq_ok_iff_forall :
    locateLine p files path line = .ok found ↔
      found ≠ [] ∧
        (∀ s ∈ file.literals, source.HasByteOn line s →
          ∃ fields?, p.types.structFields? s.ty = .ok fields?) ∧
        found.Pairwise Located.Before ∧
        ∀ l, l ∈ found ↔ l ∈ file.located ∧ source.HasByteOn line l.site ∧
          ∃ fields, p.types.structFields? l.site.ty = .ok (some fields) := by
  constructor
  · intro h
    refine ⟨?_, fun s hs hon => ?_, pairwise_before_of_locateLine hlookup h,
      fun l => mem_iff_of_locateLine hlookup hfits h⟩
    · obtain ⟨structs, -, hne, rfl⟩ := (locateLine_eq_ok_iff hlookup).1 h
      obtain ⟨l, hl⟩ := List.exists_mem_of_ne_nil structs hne
      exact List.ne_nil_of_mem (mem_sortedByStart_iff.2 hl)
    · cases hf : p.types.structFields? s.ty with
      | ok fields? => exact ⟨fields?, rfl⟩
      | error fault =>
        obtain ⟨fault', herror⟩ :=
          (exists_fault_of_locateLine_iff hlookup hfits).2 ⟨s, hs, hon, fault, hf⟩
        cases h.symm.trans herror
  · rintro ⟨hne, hresolves, hbefore, hmem⟩
    rcases locateLine_cases hlookup line with ⟨found', h⟩ | h | h
    · rw [h, (pairwise_before_of_locateLine hlookup h).eq_of_mem_iff hbefore fun l => by
        rw [hmem, mem_iff_of_locateLine hlookup hfits h]]
    · obtain ⟨l, hl⟩ := List.exists_mem_of_ne_nil found hne
      obtain ⟨hl, hon, fields, hstruct⟩ := (hmem l).1 hl
      rw [(locateLine_eq_notFound_iff_forall hlookup hfits).1 h l.site (file.site_mem_literals hl) hon]
        at hstruct
      cases hstruct
    · obtain ⟨s, hs, hon, fault, hf⟩ := (exists_fault_of_locateLine_iff hlookup hfits).1 h
      obtain ⟨fields?, hok⟩ := hresolves s hs hon
      cases hok.symm.trans hf

/-- What is found at an offset is found on its line, unless the type of another site there leads nowhere. -/
theorem exists_locateLine_of_locateOffset {offset : Nat} {l : Located}
    (h : locateOffset p files path offset = .ok l) :
    (∃ found, locateLine p files path (source.lineAt offset) = .ok found ∧ l ∈ found) ∨
      ∃ fault, locateLine p files path (source.lineAt offset) = .error (.fault fault) := by
  have hoffset : offset ≤ source.size := by
    by_contra hlt
    rw [locateOffset_eq hlookup, if_pos (Nat.not_le.1 hlt)] at h
    cases h
  obtain ⟨hinner, hstruct⟩ := (locateOffset_eq_ok_iff hlookup hoffset).1 h
  obtain ⟨hl, hcontains⟩ := List.mem_filter.1 (mem_of_innermost? hinner)
  have hsite := file.site_mem_literals hl
  have hon := (hfits l.site hsite).covers_iff.1 (source.covers_lineAt hcontains)
  rcases locateLine_cases hlookup (source.lineAt offset) with ⟨found, hline⟩ | hline | hline
  · exact .inl ⟨found, hline, (mem_iff_of_locateLine hlookup hfits hline).2 ⟨hl, hon, hstruct⟩⟩
  · obtain ⟨fields, hstruct⟩ := hstruct
    rw [(locateLine_eq_notFound_iff_forall hlookup hfits).1 hline l.site hsite hon] at hstruct
    cases hstruct
  · exact .inr hline

end Line

/-- Where sites start differently, those found on a line come in one order, however the file lists them. -/
theorem map_site_eq_of_pairwise_before {file file' : CheckedFile} {found found' : List Located}
    (hperm : file'.literals.Perm file.literals) (hstarts : (file.literals.map (·.start)).Nodup)
    (hfile : ∀ l ∈ found, l ∈ file.located) (hfile' : ∀ l ∈ found', l ∈ file'.located)
    (hbefore : found.Pairwise Located.Before) (hbefore' : found'.Pairwise Located.Before)
    (hmem : ∀ s, s ∈ found'.map (·.site) ↔ s ∈ found.map (·.site)) :
    found'.map (·.site) = found.map (·.site) := by
  have hstrict {file : CheckedFile} {found : List Located} (hstarts : (file.literals.map (·.start)).Nodup)
      (hfile : ∀ l ∈ found, l ∈ file.located) (hbefore : found.Pairwise Located.Before) :
      (found.map (·.site)).Pairwise fun s t => s.start < t.start := by
    rw [← file.map_site_located, List.map_map] at hstarts
    rw [List.pairwise_map]
    refine hbefore.imp_of_mem fun {a b} ha hb hab => ?_
    rcases hab with hlt | ⟨heq, hlt⟩
    · exact hlt
    · obtain rfl := List.inj_on_of_nodup_map hstarts (hfile a ha) (hfile b hb) heq
      exact absurd hlt (Nat.lt_irrefl _)
  have : Std.Irrefl fun s t : LiteralSite => s.start < t.start := ⟨fun s => Nat.lt_irrefl s.start⟩
  have : Std.Antisymm fun s t : LiteralSite => s.start < t.start :=
    ⟨fun s t hst hts => absurd hts (Nat.lt_asymm hst)⟩
  have hstarts' := (hperm.map (·.start)).nodup_iff.2 hstarts
  exact (hstrict hstarts' hfile' hbefore').eq_of_mem_iff (hstrict hstarts hfile hbefore) hmem

section Answer

variable {p p' : CheckedPackage} {files : SourceFiles} {path : Path} {file file' : CheckedFile}
  {source : SourceFile} {line : Nat} {found : List Located}

theorem exists_locateLine_of_perm (hlookup : lookupFile p files path = .ok (file.located, source))
    (hlookup' : lookupFile p' files path = .ok (file'.located, source))
    (hfits : ∀ s ∈ file.literals, s.FitsIn source) (htypes : p'.types = p.types)
    (hperm : file'.literals.Perm file.literals) (hstarts : (file.literals.map (·.start)).Nodup)
    (h : locateLine p files path line = .ok found) :
    ∃ found', locateLine p' files path line = .ok found' ∧
      found'.map (·.site) = found.map (·.site) := by
  have hfits' : ∀ s ∈ file'.literals, s.FitsIn source := fun s hs => hfits s (hperm.mem_iff.1 hs)
  have mem_sites {p : CheckedPackage} {file : CheckedFile} {found : List Located}
      (hlookup : lookupFile p files path = .ok (file.located, source))
      (hfits : ∀ s ∈ file.literals, s.FitsIn source) (h : locateLine p files path line = .ok found)
      (s : LiteralSite) : s ∈ found.map (·.site) ↔ s ∈ file.literals ∧ source.HasByteOn line s ∧
        ∃ fields, p.types.structFields? s.ty = .ok (some fields) := by
    rw [← file.map_site_located, List.mem_map, List.mem_map]
    constructor
    · rintro ⟨l, hl, rfl⟩
      obtain ⟨hl, hrest⟩ := (mem_iff_of_locateLine hlookup hfits h).1 hl
      exact ⟨⟨l, hl, rfl⟩, hrest⟩
    · rintro ⟨⟨l, hl, rfl⟩, hrest⟩
      exact ⟨l, (mem_iff_of_locateLine hlookup hfits h).2 ⟨hl, hrest⟩, rfl⟩
  obtain ⟨hne, hresolves, hbefore, hmem⟩ := (locateLine_eq_ok_iff_forall hlookup hfits).1 h
  rcases locateLine_cases hlookup' line with ⟨found', h'⟩ | h' | h'
  · refine ⟨found', h', map_site_eq_of_pairwise_before hperm hstarts (fun l hl => ((hmem l).1 hl).1)
      (fun l hl => ((mem_iff_of_locateLine hlookup' hfits' h').1 hl).1) hbefore
      (pairwise_before_of_locateLine hlookup' h') fun s => ?_⟩
    rw [mem_sites hlookup hfits h, mem_sites hlookup' hfits' h', hperm.mem_iff, htypes]
  · obtain ⟨l, hl⟩ := List.exists_mem_of_ne_nil found hne
    obtain ⟨hl, hon, fields, hstruct⟩ := (hmem l).1 hl
    have hnone := (locateLine_eq_notFound_iff_forall hlookup' hfits').1 h' l.site
      (hperm.mem_iff.2 (file.site_mem_literals hl)) hon
    rw [htypes, hstruct] at hnone
    cases hnone
  · obtain ⟨s, hs, hon, fault, hf⟩ := (exists_fault_of_locateLine_iff hlookup' hfits').1 h'
    obtain ⟨fields?, hok⟩ := hresolves s (hperm.mem_iff.1 hs) hon
    rw [htypes, hok] at hf
    cases hf

/-- The struct literals found on a line are those with a byte on it, each once, by where they start.
There are none if the type of each site on the line is another one, and locating fails if one of these
types leads nowhere. With different starts the answer does not depend on the order of the sites, and what
is found at an offset is found on its line too. -/
theorem locateLine_of_fitsIn (hfile : p.file? path = some file)
    (hsource : (files.find? path).bind files.get? = some source)
    (hfits : ∀ s ∈ file.literals, s.FitsIn source) (line : Nat) :
    (∀ found, locateLine p files path line = .ok found ↔
      found ≠ [] ∧
        (∀ s ∈ file.literals, source.HasByteOn line s →
          ∃ fields?, p.types.structFields? s.ty = .ok fields?) ∧
        found.Pairwise Located.Before ∧
        ∀ l, l ∈ found ↔ l.file = file ∧ file.literals[l.number]? = some l.site ∧
          source.HasByteOn line l.site ∧
          ∃ fields, p.types.structFields? l.site.ty = .ok (some fields)) ∧
    (locateLine p files path line = .error .notFound ↔
      ∀ s ∈ file.literals, source.HasByteOn line s → p.types.structFields? s.ty = .ok none) ∧
    ((∃ fault, locateLine p files path line = .error (.fault fault)) ↔
      ∃ s ∈ file.literals, source.HasByteOn line s ∧
        ∃ fault, p.types.structFields? s.ty = .error fault) ∧
    (∀ (p' : CheckedPackage) (file' : CheckedFile), p'.types = p.types →
      p'.file? path = some file' → file'.literals.Perm file.literals →
      (file.literals.map (·.start)).Nodup →
      ∀ found, locateLine p files path line = .ok found →
        ∃ found', locateLine p' files path line = .ok found' ∧
          found'.map (·.site) = found.map (·.site)) ∧
    ∀ offset l, locateOffset p files path offset = .ok l → source.lineAt offset = line →
      (∃ found, locateLine p files path line = .ok found ∧ l ∈ found) ∨
        ∃ fault, locateLine p files path line = .error (.fault fault) := by
  have hlookup := lookupFile_eq_ok hfile hsource
  refine ⟨fun found => ?_, locateLine_eq_notFound_iff_forall hlookup hfits,
    exists_fault_of_locateLine_iff hlookup hfits, ?_, ?_⟩
  · rw [locateLine_eq_ok_iff_forall hlookup hfits]
    simp only [CheckedFile.mem_located_iff, and_assoc]
  · intro p' file' htypes hfile' hperm hstarts found h
    exact exists_locateLine_of_perm hlookup (lookupFile_eq_ok hfile' hsource) hfits htypes hperm hstarts h
  · rintro offset l h rfl
    exact exists_locateLine_of_locateOffset hlookup hfits h

/-- A struct literal over two lines with one element on each, listed from the inside out. -/
def twoLineFile : CheckedFile :=
  ⟨⟨"/app/main.go"⟩, [], [⟨7, 10, .struct [], ⟨some (.name "U"), 0, [], 0⟩, false⟩,
    ⟨2, 5, .struct [], ⟨some (.name "U"), 0, [], 0⟩, false⟩,
    ⟨0, 11, .struct [], ⟨some (.name "T"), 0, [], 0⟩, false⟩]⟩

def twoLinePackage : CheckedPackage := ⟨⟨"example.com/app", "main"⟩, .empty, [twoLineFile]⟩

def twoLineSource : SourceFile := ⟨⟨"/app/main.go"⟩, "T\x7bU\x7b\x7d,\nU\x7b\x7d\x7d"⟩

/-- The second line is the end of the literal around and one of its elements. -/
theorem locateLine_of_fitsIn_second :
    (∀ s ∈ twoLineFile.literals, s.FitsIn twoLineSource) ∧
      locateLine twoLinePackage ⟨[twoLineSource]⟩ ⟨"/app/main.go"⟩ 2 =
        .ok [⟨twoLineFile, 2, ⟨0, 11, .struct [], ⟨some (.name "T"), 0, [], 0⟩, false⟩⟩,
          ⟨twoLineFile, 0, ⟨7, 10, .struct [], ⟨some (.name "U"), 0, [], 0⟩, false⟩⟩] := by
  have hfile : twoLinePackage.file? ⟨"/app/main.go"⟩ = some twoLineFile := rfl
  have hsource : ((SourceFiles.mk [twoLineSource]).find? ⟨"/app/main.go"⟩).bind
      (SourceFiles.mk [twoLineSource]).get? = some twoLineSource := rfl
  have hfits : ∀ s ∈ twoLineFile.literals, s.FitsIn twoLineSource := by
    intro s hs
    simp only [twoLineFile, List.mem_cons, List.not_mem_nil, or_false] at hs
    rcases hs with rfl | rfl | rfl <;> exact ⟨by decide, by decide, by decide⟩
  have hfirst : ¬twoLineSource.HasByteOn 2 ⟨2, 5, .struct [], ⟨some (.name "U"), 0, [], 0⟩, false⟩ := by
    rintro ⟨offset, -, hlt, hline⟩
    have hle := twoLineSource.lineAt_mono (Nat.le_of_lt hlt)
    rw [hline] at hle
    exact absurd hle (by decide)
  refine ⟨hfits, ((locateLine_of_fitsIn hfile hsource hfits 2).1 _).2 ⟨by simp, ?_, ?_, fun l => ⟨?_, ?_⟩⟩⟩
  · intro s hs _
    simp only [twoLineFile, List.mem_cons, List.not_mem_nil, or_false] at hs
    rcases hs with rfl | rfl | rfl <;> exact ⟨some [], rfl⟩
  · simp [Located.Before]
  · intro hl
    simp only [List.mem_cons, List.not_mem_nil, or_false] at hl
    rcases hl with rfl | rfl
    · exact ⟨rfl, rfl, ⟨10, by decide, by decide, by decide⟩, [], rfl⟩
    · exact ⟨rfl, rfl, ⟨7, by decide, by decide, by decide⟩, [], rfl⟩
  · obtain ⟨file, number, site⟩ := l
    rintro ⟨rfl, hsite, hon, -⟩
    match number with
    | 0 => cases hsite; simp
    | 1 => cases hsite; exact absurd hon hfirst
    | 2 => cases hsite; simp
    | number + 3 => cases hsite

/-- Next to a struct literal, one of a type that is not declared. -/
def halfDeclaredFile : CheckedFile :=
  ⟨⟨"/app/main.go"⟩, [], [⟨0, 3, .struct [], ⟨some (.name "T"), 0, [], 0⟩, false⟩,
    ⟨5, 8, .named 7, ⟨some (.name "U"), 0, [], 0⟩, false⟩]⟩

def halfDeclaredSource : SourceFile := ⟨⟨"/app/main.go"⟩, "T\x7b\x7d, U\x7b\x7d"⟩

/-- What is found at an offset is not found on its line if another type there is not declared. -/
theorem locateLine_half_declared :
    (∀ s ∈ halfDeclaredFile.literals, s.FitsIn halfDeclaredSource) ∧
      (locateOffset ⟨⟨"example.com/app", "main"⟩, .empty, [halfDeclaredFile]⟩ ⟨[halfDeclaredSource]⟩
        ⟨"/app/main.go"⟩ 1).isOk = true ∧
      locateLine ⟨⟨"example.com/app", "main"⟩, .empty, [halfDeclaredFile]⟩ ⟨[halfDeclaredSource]⟩
        ⟨"/app/main.go"⟩ (halfDeclaredSource.lineAt 1) = .error (.fault (.dangling 7)) := by
  refine ⟨fun s hs => ?_, rfl, rfl⟩
  simp only [halfDeclaredFile, List.mem_cons, List.not_mem_nil, or_false] at hs
  rcases hs with rfl | rfl <;> exact ⟨by decide, by decide, by decide⟩

end Answer

end LiteralFill
