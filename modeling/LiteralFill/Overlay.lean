import LiteralFill.FileAccess
import LiteralFill.SourceFiles
import LiteralFill.Text.Blank
import LiteralFill.Text.Decimal

namespace LiteralFill

inductive OverlayCause where
  | io (reason : String)
  | missingSize
  | invalidSize (size : String)
  | truncated (expected found : Nat)
  | notUtf8
  deriving DecidableEq, Repr

/-- What is wrong with an archive, and the file name it had reached. -/
structure OverlayError where
  filename : String
  cause : OverlayCause
  deriving DecidableEq, Repr

def OverlayError.message (e : OverlayError) : String :=
  let filename := e.filename
  match e.cause with
  | .io reason =>
    if filename.isEmpty then s!"Failed to read overlay archive: {reason}"
    else s!"Failed to read overlay file '{filename}': {reason}"
  | .missingSize => s!"Missing size of overlay file '{filename}'"
  | .invalidSize size => s!"Invalid size '{size}' of overlay file '{filename}'"
  | .truncated expected found =>
    s!"Overlay file '{filename}' is truncated, expected {expected} bytes but got {found}"
  | .notUtf8 => s!"Overlay file '{filename}' is not valid UTF-8"

/-- The bytes of an overlay archive, and why there are no more of them if not because it ended. -/
structure Archive where
  bytes : List UInt8
  failure? : Option String

/-- A file of an archive: its name on a line, its size on the next, then so many bytes of content. -/
structure Record where
  filename : String
  content : String
  deriving DecidableEq, Repr

def utf8Text? (bytes : List UInt8) : Option String := String.fromUTF8? bytes.toByteArray

/-- The first line, without its newline, and what follows. An unfinished line is none. -/
def splitLine? : List UInt8 → Option (List UInt8 × List UInt8)
  | [] => none
  | b :: rest =>
    if b = newlineByte then some ([], rest)
    else (splitLine? rest).map fun (line, after) => (b :: line, after)

theorem length_lt_of_splitLine? {bytes line after : List UInt8}
    (h : splitLine? bytes = some (line, after)) : after.length < bytes.length := by
  induction bytes generalizing line with
  | nil => simp [splitLine?] at h
  | cons b rest ih =>
    rw [splitLine?] at h
    split at h
    · cases h
      simp
    · obtain ⟨⟨l, a⟩, hl, he⟩ := Option.map_eq_some_iff.1 h
      cases he
      exact Nat.lt_succ_of_lt (ih hl)

/-- The size and the content of the file called `filename`, and what follows them. -/
def readContent (failure? : Option String) (filename : String) (bytes : List UInt8) :
    Except OverlayError (String × List UInt8) :=
  let fail := fun cause => .error ⟨filename, cause⟩
  match splitLine? bytes with
  | none => fail (failure?.elim .missingSize .io)
  | some (line, rest) =>
    match utf8Text? line with
    | none => fail .notUtf8
    | some size =>
      match Text.readNat? 32 (Text.trim size) with
      | none => fail (.invalidSize (Text.trim size))
      | some n =>
        if rest.length < n then fail (failure?.elim (.truncated n rest.length) .io)
        else match utf8Text? (rest.take n) with
          | none => fail .notUtf8
          | some content => .ok (content, rest.drop n)

theorem length_le_of_readContent {failure? : Option String} {filename content : String}
    {bytes after : List UInt8} (h : readContent failure? filename bytes = .ok (content, after)) :
    after.length ≤ bytes.length := by
  unfold readContent at h
  dsimp only at h
  split at h
  · cases h
  rename_i hs
  have hlt := length_lt_of_splitLine? hs
  repeat' split at h
  all_goals cases h
  rw [List.length_drop]
  omega

/-- The records of an archive, read to its end or up to an unfinished file name. -/
def readRecords (failure? : Option String) (bytes : List UInt8) : Except OverlayError (List Record) :=
  match _hs : splitLine? bytes with
  | none => failure?.elim (.ok []) fun reason => .error ⟨"", .io reason⟩
  | some (line, rest) =>
    match utf8Text? line with
    | none => .error ⟨"", .notUtf8⟩
    | some name =>
      match _hc : readContent failure? (Text.trim name) rest with
      | .error e => .error e
      | .ok (content, after) => do
        return ⟨Text.trim name, content⟩ :: (← readRecords failure? after)
termination_by bytes.length
decreasing_by
  exact Nat.lt_of_le_of_lt (length_le_of_readContent _hc) (length_lt_of_splitLine? _hs)

def Archive.records (a : Archive) : Except OverlayError (List Record) := readRecords a.failure? a.bytes

/-- Contents that take the place of what is on disk, by path. -/
structure Overlay where
  files : List (Path × String)

namespace Overlay

def empty : Overlay := ⟨[]⟩

def get? (o : Overlay) (path : Path) : Option String :=
  (o.files.find? (·.1.same path)).map (·.2)

def size (o : Overlay) : Nat := o.files.length

/-- The overlay with a content for `path` in place of any earlier one. -/
def insert (o : Overlay) (path : Path) (content : String) : Overlay :=
  ⟨o.files.filter (!·.1.same path) ++ [(path, content)]⟩

/-- Inserting decides the content of each spelling of a path, and of no other path. -/
theorem get?_insert (o : Overlay) (path : Path) (content : String) (p : Path) :
    (o.insert path content).get? p = if path.same p then some content else o.get? p := by
  simp only [get?, insert, List.find?_append, List.find?_filter]
  by_cases h : path.same p
  · have hnone : o.files.find? (fun e => !e.1.same path && e.1.same p) = none := by
      simp [Path.same_congr h]
    simp [h, hnone]
  · have hsame : ∀ e : Path × String, (!e.1.same path && e.1.same p) = e.1.same p := by
      intro e
      by_cases he : e.1.same path
      · obtain ⟨ha, hn⟩ := Path.same_iff.1 he
        simp only [Path.same] at h
        simp [Path.same, ha, hn, h]
      · simp [he]
    simp [h, hsame]

def ofList (files : List (Path × String)) : Overlay :=
  files.foldl (fun o (path, content) => o.insert path content) empty

/-- The overlay that an archive describes; relative names are seen from `current`. -/
def ofArchive {m : Type → Type} [Monad m] (files : FileAccess m) (current : Path) (a : Archive) :
    m (Except OverlayError Overlay) := do
  match a.records with
  | .error e => return .error e
  | .ok records =>
    let placed ← records.mapM fun r => do
      return (← files.resolveAgainst current ⟨r.filename⟩, r.content)
    return .ok (ofList placed)

end Overlay

end LiteralFill
