import LiteralFill.Proofs.Request.References

namespace LiteralFill

section Sites

variable {p : CheckedPackage} {files : SourceFiles} {path : Path} {file : CheckedFile}
  {source : SourceFile}

/-- The sites of a file, numbered in the order of its list. -/
def CheckedFile.located (file : CheckedFile) : List Located :=
  file.literals.zipIdx.map fun (site, i) => ⟨file, i, site⟩

theorem CheckedFile.mem_located_iff {l : Located} :
    l ∈ file.located ↔ l.file = file ∧ file.literals[l.number]? = some l.site := by
  rw [located, List.mem_map]
  constructor
  · rintro ⟨⟨site, i⟩, hmem, rfl⟩
    exact ⟨rfl, List.mk_mem_zipIdx_iff_getElem?.1 hmem⟩
  · rintro ⟨rfl, hsite⟩
    exact ⟨(l.site, l.number), List.mk_mem_zipIdx_iff_getElem?.2 hsite, rfl⟩

theorem CheckedFile.map_site_located (file : CheckedFile) : file.located.map (·.site) = file.literals := by
  rw [located, List.map_map]
  exact List.zipIdx_map_fst 0 file.literals

theorem CheckedFile.site_mem_literals {l : Located} (h : l ∈ file.located) : l.site ∈ file.literals := by
  rw [← file.map_site_located]
  exact List.mem_map_of_mem h

theorem CheckedFile.exists_located {s : LiteralSite} (h : s ∈ file.literals) :
    ∃ l ∈ file.located, l.site = s := by
  rw [← file.map_site_located] at h
  exact List.mem_map.1 h

theorem lookupFile_eq_ok (hfile : p.file? path = some file)
    (hsource : (files.find? path).bind files.get? = some source) :
    lookupFile p files path = .ok (file.located, source) := by
  rw [lookupFile, hfile, hsource]
  rfl

theorem Located.isStruct_eq_true_iff {l : Located} :
    l.isStruct p = .ok true ↔ ∃ fields, p.types.structFields? l.site.ty = .ok (some fields) := by
  unfold isStruct TypeTable.structFields?
  cases p.types.underlying l.site.ty with
  | error fault => simp [Except.map]
  | ok ty => cases ty <;> simp [Except.map, Ty.isStruct]

theorem Located.isStruct_eq_false_iff {l : Located} :
    l.isStruct p = .ok false ↔ p.types.structFields? l.site.ty = .ok none := by
  unfold isStruct TypeTable.structFields?
  cases p.types.underlying l.site.ty with
  | error fault => simp [Except.map]
  | ok ty => cases ty <;> simp [Except.map, Ty.isStruct]

theorem Located.isStruct_eq_fault_iff {l : Located} {fault : Fault} :
    l.isStruct p = .error (.fault fault) ↔ p.types.structFields? l.site.ty = .error fault := by
  unfold isStruct TypeTable.structFields?
  cases p.types.underlying l.site.ty with
  | error fault => simp [Except.map]
  | ok ty => simp [Except.map]

end Sites

section Innermost

theorem mem_of_innermost? {ls : List Located} {l : Located} (h : innermost? ls = some l) : l ∈ ls := by
  induction ls with
  | nil => cases h
  | cons x rest ih =>
    unfold innermost? at h
    split at h
    · rename_i m hm
      split at h <;> cases h
      · exact List.mem_cons_of_mem x (ih hm)
      · exact List.mem_cons_self
    · cases h
      exact List.mem_cons_self

theorem innermost?_eq_none_iff {ls : List Located} : innermost? ls = none ↔ ls = [] := by
  cases ls with
  | nil => simp [innermost?]
  | cons l rest =>
    unfold innermost?
    cases innermost? rest with
    | none => simp
    | some m => by_cases h : m.site.span < l.site.span <;> simp [h]

theorem span_le_of_innermost? {ls : List Located} {m l : Located} (h : innermost? ls = some m)
    (hl : l ∈ ls) : m.site.span ≤ l.site.span := by
  induction ls generalizing m with
  | nil => cases hl
  | cons x rest ih =>
    unfold innermost? at h
    cases hrest : innermost? rest with
    | none =>
      rw [innermost?_eq_none_iff.1 hrest, List.mem_singleton] at hl
      rw [hrest] at h
      cases h
      rw [hl]
    | some best =>
      rw [hrest] at h
      dsimp only at h
      have hle : m.site.span ≤ x.site.span ∧ m.site.span ≤ best.site.span := by
        split at h <;> cases h <;> omega
      rcases List.mem_cons.1 hl with rfl | hl
      · exact hle.1
      · exact hle.2.trans (ih hrest hl)

end Innermost

section Structs

variable {p : CheckedPackage} {ls found : List Located}

/-- The struct literals of a list are found in its order, if every type in it leads somewhere. -/
theorem structSites_eq_ok_iff :
    structSites p ls = .ok found ↔
      (∀ l ∈ ls, ∃ b, l.isStruct p = .ok b) ∧ found = ls.filter (·.isStruct p = .ok true) := by
  induction ls generalizing found with
  | nil => simp [structSites, eq_comm]
  | cons x rest ih =>
    constructor
    · intro h
      rw [structSites] at h
      obtain ⟨keep, hkeep, h⟩ := bind_eq_ok h
      obtain ⟨more, hmore, h⟩ := bind_eq_ok h
      obtain ⟨hok, rfl⟩ := ih.1 hmore
      cases h
      refine ⟨List.forall_mem_cons.2 ⟨⟨keep, hkeep⟩, hok⟩, ?_⟩
      rw [List.filter_cons, hkeep]
      cases keep <;> rfl
    · rintro ⟨hok, rfl⟩
      obtain ⟨⟨keep, hkeep⟩, hok⟩ := List.forall_mem_cons.1 hok
      rw [structSites, hkeep, ih.2 ⟨hok, rfl⟩, List.filter_cons, hkeep]
      cases keep <;> rfl

theorem structSites_sublist (h : structSites p ls = .ok found) : found.Sublist ls := by
  rw [(structSites_eq_ok_iff.1 h).2]
  exact List.filter_sublist

theorem mem_structSites_iff (h : structSites p ls = .ok found) {l : Located} :
    l ∈ found ↔ l ∈ ls ∧ l.isStruct p = .ok true := by
  rw [(structSites_eq_ok_iff.1 h).2, List.mem_filter, decide_eq_true_eq]

theorem exists_fault_of_structSites {e : LocateError} (h : structSites p ls = .error e) :
    ∃ fault, e = .fault fault ∧ ∃ l ∈ ls, l.isStruct p = .error (.fault fault) := by
  induction ls with
  | nil => cases h
  | cons x rest ih =>
    rw [structSites] at h
    rcases bind_eq_error h with h | ⟨keep, -, h⟩
    · rcases x.exists_isStruct_eq p with ⟨b, hb⟩ | ⟨fault, hf⟩
      · rw [hb] at h
        cases h
      · rw [hf] at h
        cases h
        exact ⟨fault, rfl, x, List.mem_cons_self, hf⟩
    · obtain ⟨fault, rfl, l, hl, hf⟩ := ih (bind_pure_eq_error h)
      exact ⟨fault, rfl, l, List.mem_cons_of_mem x hl, hf⟩

end Structs

section Sorted

variable {ls : List Located}

/-- Sites sorted by where they start. -/
def sortedByStart (ls : List Located) : List Located :=
  ls.mergeSort fun a b => a.site.start ≤ b.site.start

theorem Located.start_le_trans (a b c : Located) (hab : decide (a.site.start ≤ b.site.start) = true)
    (hbc : decide (b.site.start ≤ c.site.start) = true) : decide (a.site.start ≤ c.site.start) = true :=
  decide_eq_true ((of_decide_eq_true hab).trans (of_decide_eq_true hbc))

theorem Located.start_le_total (a b : Located) :
    (decide (a.site.start ≤ b.site.start) || decide (b.site.start ≤ a.site.start)) = true := by
  simp only [Bool.or_eq_true, decide_eq_true_eq]
  exact Nat.le_total a.site.start b.site.start

theorem mem_sortedByStart_iff {l : Located} : l ∈ sortedByStart ls ↔ l ∈ ls := List.mem_mergeSort

theorem sortedByStart_pairwise (ls : List Located) :
    (sortedByStart ls).Pairwise fun a b => a.site.start ≤ b.site.start := by
  rw [sortedByStart]
  exact (List.pairwise_mergeSort Located.start_le_trans Located.start_le_total ls).imp of_decide_eq_true

end Sorted

end LiteralFill
