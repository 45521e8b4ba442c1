import LiteralFill.Index.PackageCodec
import LiteralFill.Json.Read
import LiteralFill.Overlay

namespace LiteralFill

inductive LoadError where
  | fileDoesNotExist (path : Path)
  | cannotRead (path : Path) (reason : String)
  | malformedIndex (path : Path)
  | invalidTypes (error : TableError)
  | siteOutOfBounds (path : Path) (start stop : Nat)
  deriving DecidableEq, Repr

def LoadError.message : LoadError → String
  | .fileDoesNotExist path => s!"File does not exist: {path.text}"
  | .cannotRead path reason => s!"Failed to read '{path.text}': {reason}"
  | .malformedIndex path => s!"Malformed index '{path.text}': not a checked package"
  | .invalidTypes error => s!"Invalid index: {error.message}"
  | .siteOutOfBounds path start stop => s!"Literal at {start}..{stop} lies outside of '{path.text}'"

/-- A checked package and the text of its files. `path` is the requested file with links followed. -/
structure Loaded where
  path : Path
  package : CheckedPackage
  sources : SourceFiles

/-- Where packages are loaded from: an index, or the one beside the file, and unsaved contents. -/
structure IndexLoader (m : Type → Type) where
  files : FileAccess m
  index? : Option Path
  overlay : Overlay

/-- The index looked for beside a file if none is given. -/
def defaultIndexName : Path := ⟨"fillstruct-index.json"⟩

/-- Every site has to lie within the content of its file. -/
def checkBounds (f : CheckedFile) (size : Nat) : Except LoadError Unit :=
  match f.literals.find? fun s => s.stop < s.start || size < s.stop with
  | some s => .error (.siteOutOfBounds f.path s.start s.stop)
  | none => .ok ()

/-- The package that the text of an index describes. -/
def readPackage? (text : String) : Option CheckedPackage :=
  (Json.read? text).bind (CheckedPackage.ofJson? Json.maxDepth)

namespace IndexLoader

variable {m : Type → Type} [Monad m]

/-- A path with its links followed; there has to be something at it. -/
def existing (l : IndexLoader m) (path : Path) : ExceptT LoadError m Path := do
  match ← l.files.resolve path with
  | .ok resolved => return resolved
  | .error .absent => throw (.fileDoesNotExist path)
  | .error (.denied reason) => throw (.cannotRead path reason)

/-- The text on disk. -/
def stored (l : IndexLoader m) (path : Path) : ExceptT LoadError m String := do
  match ← l.files.read path with
  | .ok text => return text
  | .error (.denied reason) => throw (.cannotRead path reason)
  | .error .absent => throw (.cannotRead path "no such file or directory")

/-- The unsaved text of a file if there is one, else the text on disk. -/
def content (l : IndexLoader m) (path : Path) : ExceptT LoadError m String :=
  match l.overlay.get? path with
  | some text => return text
  | none => l.stored path

/-- The files of an index that lies in `dir`, each with its path resolved, and their texts. -/
def loadFiles (l : IndexLoader m) (dir : Path) :
    List CheckedFile → ExceptT LoadError m (List (CheckedFile × SourceFile))
  | [] => return []
  | f :: rest => do
    let path ← l.files.resolveAgainst dir f.path
    let source : SourceFile := ⟨path, ← l.content path⟩
    let f := { f with path }
    checkBounds f source.size
    return (f, source) :: (← l.loadFiles dir rest)

/-- The package of a file: the file, the index, its types and the texts have to be in order, and are
looked at in this order. -/
def load (l : IndexLoader m) (file : Path) : ExceptT LoadError m Loaded := do
  let path ← l.existing file
  let index ← l.existing (l.index?.getD (path.parent.join defaultIndexName))
  let some package := readPackage? (← l.stored index) | throw (.malformedIndex index)
  package.types.validate.mapError LoadError.invalidTypes
  let files ← l.loadFiles index.parent package.files
  return ⟨path, { package with files := files.map (·.1) }, ⟨files.map (·.2)⟩⟩

end IndexLoader

end LiteralFill
