import LiteralFill.Path

namespace LiteralFill

/-- A line and a column, both counted from one. -/
structure Location where
  line : Nat
  column : Nat
  deriving DecidableEq, Repr

def Location.start : Location := ⟨1, 1⟩

def Location.text (l : Location) : String := s!"{l.line}:{l.column}"

/-- A byte that continues a character of several bytes. -/
def continuesChar (b : UInt8) : Bool := b &&& 0xc0 == 0x80

def newlineByte : UInt8 := 10

structure SourceFile where
  path : Path
  content : String

namespace SourceFile

def bytes (f : SourceFile) : List UInt8 := f.content.toByteArray.data.toList

def size (f : SourceFile) : Nat := f.content.utf8ByteSize

/-- Where the lines start: at the beginning of the file, and behind each newline. -/
def lineStarts (f : SourceFile) : List Nat :=
  0 :: (f.bytes.zipIdx.filter (·.1 == newlineByte)).map (·.2 + 1)

/-- The line of the byte at `offset`, which is the last to start up to there; offsets past the end belong
to the last line. -/
def lineAt (f : SourceFile) (offset : Nat) : Nat :=
  max (f.lineStarts.takeWhile (· ≤ offset)).length 1

/-- Whether `offset` is in the file and cuts no character in two. -/
def atBoundary (f : SourceFile) (offset : Nat) : Bool :=
  match f.bytes[offset]? with
  | some b => !continuesChar b
  | none => offset == f.size

/-- The text between two offsets, unless one of them cuts a character in two. -/
def slice? (f : SourceFile) (start stop : Nat) : Option String :=
  if start ≤ stop && f.atBoundary start && f.atBoundary stop then
    String.fromUTF8? ((f.bytes.take stop).drop start).toByteArray
  else none

/-- Columns count characters, or bytes where the offset lies inside a character. -/
def columnAt (f : SourceFile) (offset : Nat) : Nat :=
  let start := f.lineStarts[f.lineAt offset - 1]?.getD 0
  let stop := min offset f.size
  ((f.slice? start stop).map (·.length)).getD (stop - start) + 1

def locationAt (f : SourceFile) (offset : Nat) : Location := ⟨f.lineAt offset, f.columnAt offset⟩

end SourceFile

/-- The loaded files, numbered from one. Number zero is an empty file of no place on disk, to which
what belongs to no input is ascribed. -/
structure SourceFiles where
  added : List SourceFile

namespace SourceFiles

def empty : SourceFiles := ⟨[]⟩

def internalKey : Nat := 0

def internalFile : SourceFile := ⟨⟨"<internal>"⟩, ""⟩

def all (s : SourceFiles) : List SourceFile := internalFile :: s.added

def get? (s : SourceFiles) (key : Nat) : Option SourceFile := s.all[key]?

/-- The files with one more, whose number is returned. -/
def add (s : SourceFiles) (file : SourceFile) : SourceFiles × Nat :=
  (⟨s.added ++ [file]⟩, s.all.length)

theorem get?_add (s : SourceFiles) (file : SourceFile) :
    (s.add file).1.get? (s.add file).2 = some file := by
  simp [add, get?, all]

/-- The number of the first file at `path`. -/
def find? (s : SourceFiles) (path : Path) : Option Nat :=
  s.all.findIdx? fun f => f.path.same path

end SourceFiles

/-- A place in one of the loaded files. -/
structure Source where
  key : Nat
  location : Location
  deriving DecidableEq, Repr

def Source.internal : Source := ⟨SourceFiles.internalKey, .start⟩

def Source.isInternal (s : Source) : Bool := s.key == SourceFiles.internalKey

/-- The place of a byte of the file at `path`. -/
def SourceFiles.sourceAt (s : SourceFiles) (path : Path) (offset : Nat) : Source :=
  match s.find? path with
  | some key => ⟨key, ((s.get? key).map (·.locationAt offset)).getD .start⟩
  | none => .internal

end LiteralFill
