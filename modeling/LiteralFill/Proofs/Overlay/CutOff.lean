import LiteralFill.Proofs.Overlay.RoundTrip

namespace LiteralFill

/-- What starts an append ends within its first part, or has all of that. -/
theorem prefix_append_cases {α : Type} {pre first second : List α} (h : pre <+: first ++ second) :
    (pre <+: first ∧ pre ≠ first) ∨ ∃ more, more <+: second ∧ pre = first ++ more := by
  obtain ⟨rest, hrest⟩ := h
  rcases List.append_eq_append_iff.1 hrest with ⟨more, hfirst, hrest⟩ | ⟨more, hpre, hsecond⟩
  · by_cases hmore : more = []
    · subst hmore
      exact .inr ⟨[], List.nil_prefix, by simpa using hfirst.symm⟩
    · refine .inl ⟨⟨more, hfirst.symm⟩, fun he => hmore ?_⟩
      simpa [he] using hfirst
  · exact .inr ⟨more, ⟨rest, hsecond.symm⟩, hpre⟩

theorem prefix_utf8Bytes_of_prefix_lineBytes {s : String} {pre : List UInt8}
    (h : pre <+: lineBytes s) (hne : pre ≠ lineBytes s) : pre <+: utf8Bytes s :=
  (List.prefix_concat_iff.1 h).resolve_left hne

theorem splitLine?_unfinished {s : String} (h : '\n' ∉ s.toList) {pre : List UInt8}
    (hpre : pre <+: utf8Bytes s) : splitLine? pre = none :=
  splitLine?_eq_none fun hmem => newlineByte_notMem_utf8Bytes h (hpre.subset hmem)

namespace Record

/-- A record can end early within its name, within its size or within its content. -/
theorem prefix_encode_cases {r : Record} {part : List UInt8} (h : part <+: r.encode)
    (hne : part ≠ r.encode) :
    part <+: utf8Bytes r.filename ∨
      (∃ digits, digits <+: utf8Bytes (toString r.content.utf8ByteSize) ∧
        part = lineBytes r.filename ++ digits) ∨
      ∃ found, found <+: utf8Bytes r.content ∧ found ≠ utf8Bytes r.content ∧
        part = lineBytes r.filename ++ (lineBytes (toString r.content.utf8ByteSize) ++ found) := by
  rcases prefix_append_cases h with ⟨hname, hcut⟩ | ⟨rest, hrest, rfl⟩
  · exact .inl (prefix_utf8Bytes_of_prefix_lineBytes hname hcut)
  rcases prefix_append_cases hrest with ⟨hsize, hcut⟩ | ⟨found, hfound, rfl⟩
  · exact .inr (.inl ⟨rest, prefix_utf8Bytes_of_prefix_lineBytes hsize hcut, rfl⟩)
  · refine .inr (.inr ⟨found, hfound, fun he => hne ?_, rfl⟩)
    rw [he, encode]

/-- What is cut off an archive begins within one of its records. -/
theorem prefix_encodeAll_cases {records : List Record} {bytes : List UInt8}
    (h : bytes <+: encodeAll records) (hne : bytes ≠ encodeAll records) :
    ∃ read r rest part, records = read ++ r :: rest ∧ bytes = encodeAll read ++ part ∧
      part <+: r.encode ∧ part ≠ r.encode := by
  induction records generalizing bytes with
  | nil => exact absurd (List.prefix_nil.1 h) hne
  | cons r records ih =>
    rw [encodeAll_cons] at h hne
    rcases prefix_append_cases h with ⟨hr, hcut⟩ | ⟨more, hmore, rfl⟩
    · exact ⟨[], r, records, bytes, rfl, rfl, hr, hcut⟩
    · obtain ⟨read, r', rest, part, rfl, rfl, hpart, hcut⟩ := ih hmore fun he => hne (by rw [he])
      exact ⟨r :: read, r', rest, part, rfl, by simp, hpart, hcut⟩

end Record

theorem readContent_missingSize {digits : List UInt8} {n : Nat}
    (h : digits <+: utf8Bytes (toString n)) (filename : String) :
    readContent none filename digits = .error ⟨filename, .missingSize⟩ := by
  rw [readContent, splitLine?_unfinished (newline_notMem_toString n) h]
  rfl

theorem readContent_truncated {n : Nat} (h : n < Nat.pow 2 32) {found : List UInt8} (hf : found.length < n)
    (filename : String) :
    readContent none filename (lineBytes (toString n) ++ found) =
      .error ⟨filename, .truncated n found.length⟩ := by
  rw [readContent_lineBytes h, if_pos hf]
  rfl

theorem Record.Encodable.readRecords_of_error {r : Record} (h : r.Encodable) {bytes : List UInt8}
    {e : OverlayError} (he : readContent none r.filename bytes = .error e) :
    readRecords none (lineBytes r.filename ++ bytes) = .error e := by
  rw [readRecords_lineBytes h.name_oneLine h.trim_filename, he]
  rfl

namespace Overlay

theorem ofArchive_append_of_end (files : FileAccess Id) (current : Path) {records : List Record}
    (hr : ∀ r ∈ records, r.Encodable) {part : List UInt8} (h : splitLine? part = none) :
    Id.run (ofArchive files current ⟨Record.encodeAll records ++ part, none⟩) =
      .ok (ofList (records.map fun r => (r.path files current, r.content))) := by
  refine ofArchive_of_records files current ?_
  rw [readRecords_encodeAll_append hr, readRecords_of_splitLine?_none h]
  simp

theorem ofArchive_append_of_error (files : FileAccess Id) (current : Path) {records : List Record}
    (hr : ∀ r ∈ records, r.Encodable) {part : List UInt8} {e : OverlayError}
    (h : readRecords none part = .error e) :
    Id.run (ofArchive files current ⟨Record.encodeAll records ++ part, none⟩) = .error e := by
  have hrecords := readRecords_encodeAll_append hr none part
  rw [h] at hrecords
  simp only [ofArchive, Archive.records, hrecords]
  rfl

/-- An archive that is cut off gives the overlay of its complete records if the cut lies within a
name, and otherwise says which record is incomplete. Of the overlay it is said what is at each path, so
that no record is there in part. -/
theorem ofArchive_cutOff (files : FileAccess Id) (current : Path) (records : List Record)
    (hr : ∀ r ∈ records, r.Encodable) (bytes : List UInt8) (hb : bytes <+: Record.encodeAll records)
    (hcut : bytes ≠ Record.encodeAll records) :
    ∃ read r rest part, records = read ++ r :: rest ∧ bytes = Record.encodeAll read ++ part ∧
      ((part <+: utf8Bytes r.filename ∧
          ∃ o, Id.run (ofArchive files current ⟨bytes, none⟩) = .ok o ∧
            Id.run (ofArchive files current ⟨Record.encodeAll read, none⟩) = .ok o ∧
            (∀ p, o.get? p = (read.reverse.find? fun r => (r.path files current).same p).map (·.content)) ∧
            o.size = (read.map fun r => (r.path files current).components).toFinset.card) ∨
        (∃ digits, digits <+: utf8Bytes (toString r.content.utf8ByteSize) ∧
          part = lineBytes r.filename ++ digits ∧
          Id.run (ofArchive files current ⟨bytes, none⟩) = .error ⟨r.filename, .missingSize⟩) ∨
        ∃ found, found <+: utf8Bytes r.content ∧ found.length < r.content.utf8ByteSize ∧
          part = lineBytes r.filename ++ (lineBytes (toString r.content.utf8ByteSize) ++ found) ∧
          Id.run (ofArchive files current ⟨bytes, none⟩) =
            .error ⟨r.filename, .truncated r.content.utf8ByteSize found.length⟩) := by
  obtain ⟨read, r, rest, part, rfl, rfl, hpart, hne⟩ := Record.prefix_encodeAll_cases hb hcut
  have hread : ∀ r ∈ read, r.Encodable := fun r hmem => hr r (by simp [hmem])
  have hnext : r.Encodable := hr r (by simp)
  refine ⟨read, r, rest, part, rfl, rfl, ?_⟩
  rcases Record.prefix_encode_cases hpart hne with
    hname | ⟨digits, hdigits, rfl⟩ | ⟨found, hfound, hshort, rfl⟩
  · have hend := splitLine?_unfinished hnext.name_oneLine hname
    refine .inl ⟨hname, _, ofArchive_append_of_end files current hread hend, ?_,
      get?_ofList_records files current read, size_ofList_records files current read⟩
    exact ofArchive_of_records files current (readRecords_encodeAll hread)
  · have hend := hnext.readRecords_of_error (readContent_missingSize hdigits r.filename)
    exact .inr (.inl ⟨digits, hdigits, rfl, ofArchive_append_of_error files current hread hend⟩)
  · have hlen : found.length < r.content.utf8ByteSize :=
      lt_of_le_of_ne hfound.length_le fun he => hshort (hfound.eq_of_length he)
    have hend := hnext.readRecords_of_error
      (readContent_truncated hnext.content_size hlen r.filename)
    exact .inr (.inr ⟨found, hfound, hlen, rfl,
      ofArchive_append_of_error files current hread hend⟩)

/-- Two files, the second of them without content. -/
def accented : List Record := [⟨"a.go", "né"⟩, ⟨"bé.go", ""⟩]

/-- Cuts within the two bytes of a character: of the first content, and of the second name. -/
theorem ofArchive_cutOff_accented :
    (∀ r ∈ accented, r.Encodable) ∧
      (utf8Bytes "a.go\n3\nn" ++ [0xc3] <+: Record.encodeAll accented ∧
        utf8Bytes "a.go\n3\nn" ++ [0xc3] ≠ Record.encodeAll accented ∧
        Id.run (ofArchive nowhere ⟨"/w"⟩ ⟨utf8Bytes "a.go\n3\nn" ++ [0xc3], none⟩) =
          .error ⟨"a.go", .truncated 3 2⟩) ∧
      utf8Bytes "a.go\n3\nnéb" ++ [0xc3] <+: Record.encodeAll accented ∧
      utf8Bytes "a.go\n3\nnéb" ++ [0xc3] ≠ Record.encodeAll accented ∧
      ∃ o, Id.run (ofArchive nowhere ⟨"/w"⟩ ⟨utf8Bytes "a.go\n3\nnéb" ++ [0xc3], none⟩) = .ok o ∧
        o.get? ⟨"/w/a.go"⟩ = some "né" ∧ o.get? ⟨"/w/b"⟩ = none ∧ o.size = 1 := by
  have hrecords : ∀ r ∈ accented, r.Encodable := by decide
  have hcontent : utf8Bytes "a.go\n3\nn" ++ [0xc3] <+: Record.encodeAll accented := by decide
  have hcontent' : utf8Bytes "a.go\n3\nn" ++ [0xc3] ≠ Record.encodeAll accented := by decide
  have hname : utf8Bytes "a.go\n3\nnéb" ++ [0xc3] <+: Record.encodeAll accented := by decide
  have hname' : utf8Bytes "a.go\n3\nnéb" ++ [0xc3] ≠ Record.encodeAll accented := by decide
  have hsplit {read rest : List Record} {r : Record} (h : accented = read ++ r :: rest) :
      read = [] ∧ r = ⟨"a.go", "né"⟩ ∧ rest = [⟨"bé.go", ""⟩] ∨
        read = [⟨"a.go", "né"⟩] ∧ r = ⟨"bé.go", ""⟩ ∧ rest = [] := by
    simpa [accented, List.cons_eq_append_iff] using h
  have hfirst : (Record.encodeAll [⟨"a.go", "né"⟩]).length = 10 := by decide
  -- the lengths of the pieces tell in which record a cut is, and in which part of it
  refine ⟨hrecords, ⟨hcontent, hcontent', ?_⟩, hname, hname', ?_⟩
  · obtain ⟨read, r, rest, part, hread, hbytes, hcase⟩ :=
      ofArchive_cutOff nowhere ⟨"/w"⟩ accented hrecords _ hcontent hcontent'
    have hlength : 9 = _ := (congrArg List.length hbytes).trans List.length_append
    rcases hsplit hread with ⟨rfl, rfl, -⟩ | ⟨rfl, -, -⟩
    · have hlength : 9 = part.length := hlength.trans (Nat.zero_add _)
      rcases hcase with ⟨hpart, -⟩ | ⟨digits, hdigits, rfl, -⟩ | ⟨found, -, -, rfl, hrun⟩
      · have : part.length ≤ 4 := hpart.length_le
        omega
      · have : digits.length ≤ 1 := hdigits.length_le
        have : 9 = 5 + digits.length := hlength.trans List.length_append
        omega
      · have : 9 = 5 + (2 + found.length) := hlength.trans
          (List.length_append.trans (congrArg (5 + ·) List.length_append))
        rw [hrun, show found.length = 2 by omega]
        rfl
    · rw [hfirst] at hlength
      omega
  · obtain ⟨read, r, rest, part, hread, hbytes, hcase⟩ :=
      ofArchive_cutOff nowhere ⟨"/w"⟩ accented hrecords _ hname hname'
    have hlength : 12 = _ := (congrArg List.length hbytes).trans List.length_append
    rcases hsplit hread with ⟨rfl, rfl, -⟩ | ⟨rfl, rfl, -⟩
    · have hlength : 12 = part.length := hlength.trans (Nat.zero_add _)
      rcases hcase with ⟨hpart, -⟩ | ⟨digits, hdigits, rfl, -⟩ | ⟨found, -, hfound, rfl, -⟩
      · have : part.length ≤ 4 := hpart.length_le
        omega
      · have : digits.length ≤ 1 := hdigits.length_le
        have : 12 = 5 + digits.length := hlength.trans List.length_append
        omega
      · have : found.length < 3 := hfound
        have : 12 = 5 + (2 + found.length) := hlength.trans
          (List.length_append.trans (congrArg (5 + ·) List.length_append))
        omega
    · rw [hfirst] at hlength
      rcases hcase with ⟨-, o, ho, -, hget, hsize⟩ | ⟨digits, -, rfl, -⟩ | ⟨found, -, -, rfl, -⟩
      · exact ⟨o, ho, by rw [hget]; decide, by rw [hget]; decide, by rw [hsize]; decide⟩
      · have : 12 = 10 + (7 + digits.length) := hlength.trans (congrArg (10 + ·) List.length_append)
        omega
      · have : 12 = 10 + (7 + (lineBytes "0" ++ found).length) :=
          hlength.trans (congrArg (10 + ·) List.length_append)
        omega

end Overlay

end LiteralFill
