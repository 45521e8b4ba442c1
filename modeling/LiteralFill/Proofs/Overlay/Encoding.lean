import LiteralFill.Overlay
import LiteralFill.Proofs.Text.Decimal

namespace LiteralFill

def utf8Bytes (s : String) : List UInt8 := s.toByteArray.data.toList

theorem length_utf8Bytes (s : String) : (utf8Bytes s).length = s.utf8ByteSize := rfl

@[simp] theorem utf8Text?_utf8Bytes (s : String) : utf8Text? (utf8Bytes s) = some s := by
  have hbytes : (utf8Bytes s).toByteArray = s.toByteArray := by
    ext1
    simp [utf8Bytes]
  rw [utf8Text?, hbytes, String.fromUTF8?, dif_pos s.isValidUTF8]
  rfl

theorem utf8Bytes_eq_flatMap (s : String) : utf8Bytes s = s.toList.flatMap String.utf8EncodeChar := by
  have hs : s.toByteArray = s.toList.utf8Encode := by
    rw [← String.toByteArray_ofList, String.ofList_toList]
  simp [utf8Bytes, hs, List.utf8Encode]

theorem mod_of_newlineByte_eq {n : Nat} (h : newlineByte = UInt8.ofNat n) : n % 256 = 10 := by
  simpa [newlineByte] using (congrArg UInt8.toNat h).symm

theorem newlineByte_ne_ofNat {n : Nat} (h : 128 ≤ n) (hn : n < 256) :
    newlineByte ≠ UInt8.ofNat n := fun he => by
  have := mod_of_newlineByte_eq he
  omega

theorem eq_newline_of_mem_utf8EncodeChar {c : Char} (h : newlineByte ∈ String.utf8EncodeChar c) :
    c = '\n' := by
  simp only [String.utf8EncodeChar] at h
  split at h
  · have hmod := mod_of_newlineByte_eq (List.mem_singleton.1 h)
    exact Char.ext (UInt32.toNat_inj.1 (by change c.val.toNat = 10; omega))
  -- No byte of a longer character is below 128.
  · exfalso
    repeat' split at h
    all_goals simp (disch := omega) only [List.mem_cons, List.not_mem_nil, or_false,
      newlineByte_ne_ofNat] at h

theorem newlineByte_notMem_utf8Bytes {s : String} (h : '\n' ∉ s.toList) :
    newlineByte ∉ utf8Bytes s := by
  rw [utf8Bytes_eq_flatMap, List.mem_flatMap]
  rintro ⟨c, hc, hb⟩
  exact h (eq_newline_of_mem_utf8EncodeChar hb ▸ hc)

theorem splitLine?_append {line : List UInt8} (h : newlineByte ∉ line) (rest : List UInt8) :
    splitLine? (line ++ newlineByte :: rest) = some (line, rest) := by
  induction line with
  | nil => simp [splitLine?]
  | cons b line ih =>
    simp only [List.mem_cons, not_or] at h
    simp [splitLine?, Ne.symm h.1, ih h.2]

theorem splitLine?_eq_none {bytes : List UInt8} (h : newlineByte ∉ bytes) :
    splitLine? bytes = none := by
  induction bytes with
  | nil => rfl
  | cons b bytes ih =>
    simp only [List.mem_cons, not_or] at h
    simp [splitLine?, Ne.symm h.1, ih h.2]

/-- A line of an archive. -/
def lineBytes (s : String) : List UInt8 := utf8Bytes s ++ [newlineByte]

theorem splitLine?_lineBytes {s : String} (h : '\n' ∉ s.toList) (rest : List UInt8) :
    splitLine? (lineBytes s ++ rest) = some (utf8Bytes s, rest) := by
  rw [lineBytes, List.append_assoc]
  exact splitLine?_append (newlineByte_notMem_utf8Bytes h) rest

theorem newline_notMem_toString (n : Nat) : '\n' ∉ (toString n).toList := fun h => by
  cases Text.isDigit_of_mem_toString h

namespace Record

/-- What an archive can hold as it is: a name that is one line with no blank at its ends, and a
content whose size fits the size line. -/
structure Encodable (r : Record) : Prop where
  name_oneLine : '\n' ∉ r.filename.toList
  name_first : r.filename.toList.head?.any Text.isBlank = false
  name_last : r.filename.toList.getLast?.any Text.isBlank = false
  content_size : r.content.utf8ByteSize < Nat.pow 2 32

instance (r : Record) : Decidable r.Encodable :=
  decidable_of_iff
    ('\n' ∉ r.filename.toList ∧ r.filename.toList.head?.any Text.isBlank = false ∧
      r.filename.toList.getLast?.any Text.isBlank = false ∧ r.content.utf8ByteSize < Nat.pow 2 32)
    ⟨fun ⟨hline, hfirst, hlast, hsize⟩ => ⟨hline, hfirst, hlast, hsize⟩, fun h =>
      ⟨h.name_oneLine, h.name_first, h.name_last, h.content_size⟩⟩

theorem Encodable.trim_filename {r : Record} (h : r.Encodable) : Text.trim r.filename = r.filename :=
  Text.trim_eq_self h.name_first h.name_last

/-- The record as an archive has it. -/
def encode (r : Record) : List UInt8 :=
  lineBytes r.filename ++ (lineBytes (toString r.content.utf8ByteSize) ++ utf8Bytes r.content)

def encodeAll (records : List Record) : List UInt8 := records.flatMap encode

@[simp] theorem encodeAll_nil : encodeAll [] = [] := rfl

@[simp] theorem encodeAll_cons (r : Record) (records : List Record) :
    encodeAll (r :: records) = r.encode ++ encodeAll records := List.flatMap_cons

end Record

theorem readRecords_of_splitLine?_none {bytes : List UInt8} (h : splitLine? bytes = none) :
    readRecords none bytes = .ok [] := by
  rw [readRecords]
  split
  · rfl
  · rename_i hs
    cases h.symm.trans hs

/-- Reading on after a complete name. -/
theorem readRecords_lineBytes {s : String} (h : '\n' ∉ s.toList) (htrim : Text.trim s = s)
    (failure? : Option String) (bytes : List UInt8) :
    readRecords failure? (lineBytes s ++ bytes) =
      (readContent failure? s bytes).bind fun (content, after) =>
        (⟨s, content⟩ :: ·) <$> readRecords failure? after := by
  rw [readRecords]
  split
  · rename_i hs
    cases hs.symm.trans (splitLine?_lineBytes h bytes)
  · rename_i line rest hs
    obtain ⟨rfl, rfl⟩ : line = utf8Bytes s ∧ rest = bytes := by
      simpa using hs.symm.trans (splitLine?_lineBytes h bytes)
    simp only [utf8Text?_utf8Bytes, htrim]
    split
    all_goals
      rename_i hc
      rw [htrim] at hc
      rw [hc]
      rfl

/-- Reading on after a complete size. -/
theorem readContent_lineBytes {n : Nat} (h : n < Nat.pow 2 32) (failure? : Option String)
    (filename : String) (bytes : List UInt8) :
    readContent failure? filename (lineBytes (toString n) ++ bytes) =
      if bytes.length < n then
        .error ⟨filename, failure?.elim (.truncated n bytes.length) .io⟩
      else (utf8Text? (bytes.take n)).elim (.error ⟨filename, .notUtf8⟩) fun content =>
        .ok (content, bytes.drop n) := by
  rw [readContent]
  simp only [splitLine?_lineBytes (newline_notMem_toString n), utf8Text?_utf8Bytes,
    Text.trim_toString, Text.readNat?_toString h]
  cases utf8Text? (bytes.take n) <;> rfl

theorem Record.Encodable.readContent_append {r : Record} (h : r.Encodable)
    (failure? : Option String) (rest : List UInt8) :
    readContent failure? r.filename
        (lineBytes (toString r.content.utf8ByteSize) ++ (utf8Bytes r.content ++ rest)) =
      .ok (r.content, rest) := by
  rw [readContent_lineBytes h.content_size, if_neg (by simp [length_utf8Bytes]),
    ← length_utf8Bytes, List.take_left, List.drop_left, utf8Text?_utf8Bytes]
  rfl

/-- Each record is consumed to its last byte, whatever its content looks like. -/
theorem Record.Encodable.readRecords_append {r : Record} (h : r.Encodable)
    (failure? : Option String) (rest : List UInt8) :
    readRecords failure? (r.encode ++ rest) = (r :: ·) <$> readRecords failure? rest := by
  rw [Record.encode, List.append_assoc, List.append_assoc,
    readRecords_lineBytes h.name_oneLine h.trim_filename, h.readContent_append]
  rfl

theorem readRecords_encodeAll_append {records : List Record} (h : ∀ r ∈ records, r.Encodable)
    (failure? : Option String) (rest : List UInt8) :
    readRecords failure? (Record.encodeAll records ++ rest) =
      (records ++ ·) <$> readRecords failure? rest := by
  induction records with
  | nil => simp
  | cons r records ih =>
    rw [Record.encodeAll_cons, List.append_assoc, (h r (by simp)).readRecords_append,
      ih fun r hr => h r (by simp [hr])]
    simp

theorem readRecords_encodeAll {records : List Record} (h : ∀ r ∈ records, r.Encodable) :
    readRecords none (Record.encodeAll records) = .ok records := by
  have hend : readRecords none [] = .ok [] := readRecords_of_splitLine?_none rfl
  simpa [hend] using readRecords_encodeAll_append h none []

end LiteralFill
