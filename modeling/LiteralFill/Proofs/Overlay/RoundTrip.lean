import LiteralFill.Proofs.Overlay.Encoding
import Mathlib.Data.Finset.Card

namespace LiteralFill

/-- What two spellings of a path have in common. -/
def Path.components (p : Path) : Bool × List String := (p.isAbsolute, p.names)

theorem Path.same_iff_components {p q : Path} : p.same q ↔ p.components = q.components := by
  rw [Path.same_iff, Path.components, Path.components, Prod.mk.injEq]

/-- Where a record belongs, seen from `current`. -/
def Record.path (files : FileAccess Id) (current : Path) (r : Record) : Path :=
  Id.run (files.resolveAgainst current ⟨r.filename⟩)

namespace Overlay

/-- The paths of an overlay, each as the components that tell it from the others. -/
def components (o : Overlay) : List (Bool × List String) := o.files.map (·.1.components)

theorem components_insert (o : Overlay) (path : Path) (content : String) :
    (o.insert path content).components =
      o.components.filter (· ≠ path.components) ++ [path.components] := by
  simp only [components, insert, List.map_append, List.map_cons, List.map_nil, List.filter_map]
  congr 3
  funext e
  simp [Function.comp, ← Path.same_iff_components]

theorem ofList_concat (files : List (Path × String)) (file : Path × String) :
    ofList (files ++ [file]) = (ofList files).insert file.1 file.2 := by
  simp [ofList]

/-- The last content for a path is the one it has. -/
theorem get?_ofList (files : List (Path × String)) (p : Path) :
    (ofList files).get? p = (files.reverse.find? (·.1.same p)).map (·.2) := by
  induction files using List.reverseRecOn with
  | nil => rfl
  | append_singleton files file ih =>
    rw [ofList_concat, get?_insert, ih, List.reverse_append]
    by_cases h : file.1.same p <;> simp [h]

theorem nodup_components_ofList (files : List (Path × String)) : (ofList files).components.Nodup := by
  induction files using List.reverseRecOn with
  | nil => exact List.nodup_nil
  | append_singleton files file ih =>
    rw [ofList_concat, components_insert, List.nodup_append]
    refine ⟨ih.filter _, List.nodup_singleton _, ?_⟩
    simp

theorem mem_components_ofList (files : List (Path × String)) (c : Bool × List String) :
    c ∈ (ofList files).components ↔ c ∈ files.map (·.1.components) := by
  induction files using List.reverseRecOn with
  | nil => rfl
  | append_singleton files file ih =>
    rw [ofList_concat, components_insert, List.mem_append, List.mem_filter, ih]
    by_cases h : c = file.1.components <;> simp [h]

/-- There is one file for each path that is told from the others. -/
theorem size_ofList (files : List (Path × String)) :
    (ofList files).size = (files.map (·.1.components)).toFinset.card := by
  have hset : (files.map (·.1.components)).toFinset = (ofList files).components.toFinset := by
    ext c
    rw [List.mem_toFinset, List.mem_toFinset, mem_components_ofList]
  rw [hset, List.toFinset_card_of_nodup (nodup_components_ofList files), components,
    List.length_map, size]

/-- An archive that ends where its records end describes the overlay of these records. -/
theorem ofArchive_of_records (files : FileAccess Id) (current : Path) {bytes : List UInt8}
    {records : List Record} (h : readRecords none bytes = .ok records) :
    Id.run (ofArchive files current ⟨bytes, none⟩) =
      .ok (ofList (records.map fun r => (r.path files current, r.content))) := by
  simp only [ofArchive, Archive.records, h, Id.run_bind, List.idRun_mapM]
  rfl

/-- At each path there is the content of the last record that belongs there. -/
theorem get?_ofList_records (files : FileAccess Id) (current : Path) (records : List Record) (p : Path) :
    (ofList (records.map fun r => (r.path files current, r.content))).get? p =
      (records.reverse.find? fun r => (r.path files current).same p).map (·.content) := by
  rw [get?_ofList, ← List.map_reverse, List.find?_map, Option.map_map]
  rfl

theorem size_ofList_records (files : FileAccess Id) (current : Path) (records : List Record) :
    (ofList (records.map fun r => (r.path files current, r.content))).size =
      (records.map fun r => (r.path files current).components).toFinset.card := by
  rw [size_ofList, List.map_map]
  rfl

/-- Reading an archive undoes writing it. -/
theorem ofArchive_encodeAll (files : FileAccess Id) (current : Path) (records : List Record)
    (h : ∀ r ∈ records, r.Encodable) :
    ∃ o, Id.run (ofArchive files current ⟨Record.encodeAll records, none⟩) = .ok o ∧
      (∀ p, o.get? p = (records.reverse.find? fun r => (r.path files current).same p).map (·.content)) ∧
      o.size = (records.map fun r => (r.path files current).components).toFinset.card :=
  ⟨_, ofArchive_of_records files current (readRecords_encodeAll h), get?_ofList_records files current records,
    size_ofList_records files current records⟩

/-- A file system where nothing exists, so that paths are resolved as they are written. -/
def nowhere : FileAccess Id where
  resolve _ := .error .absent
  absolutize p := .ok p.normalize
  read _ := .error .absent

/-- Two spellings of one name, of which the first has the text of another record as its content. -/
def lookalikes : List Record := [⟨"a.go", "x\nb.go\n1\ny"⟩, ⟨"../w/a.go", "né\n"⟩, ⟨"", "3"⟩]

theorem ofArchive_encodeAll_lookalikes :
    (∀ r ∈ lookalikes, r.Encodable) ∧
      Record.encodeAll lookalikes = utf8Bytes "a.go\n10\nx\nb.go\n1\ny../w/a.go\n4\nné\n\n1\n3" ∧
      ∃ o, Id.run (ofArchive nowhere ⟨"/w"⟩ ⟨Record.encodeAll lookalikes, none⟩) = .ok o ∧
        o.get? ⟨"/w/a.go"⟩ = some "né\n" ∧ o.get? ⟨"/w/b.go"⟩ = none ∧ o.get? ⟨"/w"⟩ = some "3" ∧
        o.size = 2 := by
  have hrecords : ∀ r ∈ lookalikes, r.Encodable := by decide
  obtain ⟨o, ho, hget, hsize⟩ := ofArchive_encodeAll nowhere ⟨"/w"⟩ lookalikes hrecords
  refine ⟨hrecords, by decide, o, ho, ?_, ?_, ?_, ?_⟩
  · rw [hget]
    decide
  · rw [hget]
    decide
  · rw [hget]
    decide
  · rw [hsize]
    decide

end Overlay

end LiteralFill
