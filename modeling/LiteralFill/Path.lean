namespace LiteralFill

/-- A path as it was written. -/
structure Path where
  text : String
  deriving DecidableEq, Repr

/-- The pieces of a text between its slashes. -/
def slashPieces : List Char → List (List Char)
  | [] => [[]]
  | '/' :: rest => [] :: slashPieces rest
  | c :: rest =>
    match slashPieces rest with
    | [] => [[c]]
    | piece :: more => (c :: piece) :: more

namespace Path

def isAbsolute (p : Path) : Bool := p.text.toList.head? == some '/'

def pieces (p : Path) : List String := (slashPieces p.text.toList).map String.ofList

/-- The names along a path. Empty pieces do not count, nor does a dot that is not the start of a
relative path. -/
def names (p : Path) : List String :=
  let keep := (p.pieces.filter fun s => s ≠ "" && s ≠ ".")
  if p.pieces.head? = some "." then "." :: keep else keep

/-- Two spellings of one path. -/
def same (p q : Path) : Bool := p.isAbsolute == q.isAbsolute && p.names == q.names

@[simp] theorem same_refl (p : Path) : p.same p = true := by simp [same]

theorem same_iff {p q : Path} : p.same q ↔ p.isAbsolute = q.isAbsolute ∧ p.names = q.names := by
  simp [same]

theorem same_congr {p q : Path} (h : p.same q) (r : Path) : r.same p = r.same q := by
  obtain ⟨ha, hn⟩ := same_iff.1 h
  simp [same, ha, hn]

/-- The absolute path along `names`. -/
def ofNames (names : List String) : Path := ⟨"/" ++ "/".intercalate names⟩

/-- `p` as seen from the directory `dir`. -/
def join (dir p : Path) : Path :=
  if p.isAbsolute then p
  else if dir.text.isEmpty || dir.text.toList.getLast? == some '/' then ⟨dir.text ++ p.text⟩
  else ⟨dir.text ++ "/" ++ p.text⟩

/-- The directory of an absolute path; the root is its own. -/
def parent (p : Path) : Path := ofNames p.names.dropLast

/-- One step along a path, where two dots lead back. -/
def stepInto (names : List String) (name : String) : List String :=
  if name = ".." then names.dropLast else names ++ [name]

/-- An absolute path with its dots resolved as they are written, whatever is on disk. -/
def normalize (p : Path) : Path := ofNames (p.names.foldl stepInto [])

end Path

end LiteralFill
