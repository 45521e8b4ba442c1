import LiteralFill.FileAccess

namespace LiteralFill

inductive FileEntry where
  | file (bytes : List UInt8)
  | folder
  | link (target : Path)

/-- A file system held in memory: what stands at the names that lead down from the root. -/
structure FileTree where
  entries : List (List String × FileEntry)
  /-- The folder that relative paths start from. -/
  current : List String

namespace FileTree

/-- A file system with nothing but the root. -/
def bare : FileTree := ⟨[], []⟩

def entry? (t : FileTree) (names : List String) : Option FileEntry :=
  if names = [] then some .folder else t.entries.lookup names

def put (t : FileTree) (names : List String) (entry : FileEntry) : FileTree :=
  { t with entries := (names, entry) :: t.entries }

/-- The folder at `names`, with those above it, made where nothing stands yet. -/
def makeFolder (t : FileTree) (names : List String) : FileTree :=
  (List.range (names.length + 1)).foldl
    (fun t n => if (t.entry? (names.take n)).isSome then t else t.put (names.take n) .folder) t

/-- An entry at `names`, with the folders above it. -/
def makeEntry (t : FileTree) (names : List String) (entry : FileEntry) : FileTree :=
  (t.makeFolder names.dropLast).put names entry

/-- The names along a path, from the current folder if it is relative. Nothing is looked up. -/
def namesOf (t : FileTree) (p : Path) : List String :=
  (if p.isAbsolute then [] else t.current) ++ p.names |>.foldl Path.stepInto []

def isFolder (t : FileTree) (names : List String) : Bool :=
  match t.entry? names with
  | some .folder => true
  | _ => false

/-- The most bytes a single name may have. -/
def maxNameBytes : Nat := 255

def nameTooLong : AccessError := .denied "file name too long"

/-- Walks the pieces of a path from the folder `here`; `enter` walks on where a link leads. -/
def walkWith (t : FileTree) (enter : List String → List String → Except AccessError (List String)) :
    List String → List String → Except AccessError (List String)
  | here, [] => .ok here
  | here, name :: rest =>
    if !t.isFolder here then .error (.denied "not a directory")
    else if name = "" || name = "." then t.walkWith enter here rest
    else if name = ".." then t.walkWith enter here.dropLast rest
    else if maxNameBytes < name.utf8ByteSize then .error nameTooLong
    else match t.entry? (here ++ [name]) with
      | none => .error .absent
      | some (.link target) => enter (if target.isAbsolute then [] else here) (target.pieces ++ rest)
      | some _ => t.walkWith enter (here ++ [name]) rest

/-- Walks the pieces of a path through at most `links` links. -/
def walk (t : FileTree) : Nat → List String → List String → Except AccessError (List String)
  | 0 => t.walkWith fun _ _ => .error (.denied "too many levels of symbolic links")
  | links + 1 => t.walkWith (t.walk links)

def maxLinks : Nat := 40

/-- The most bytes of a path that is looked up as a whole. -/
def maxPathBytes : Nat := 4095

/-- Where a path leads, found name by name. -/
def resolveNames (t : FileTree) (p : Path) : Except AccessError (List String) :=
  if p.text.toList.contains '\x00' then .error (.denied "path contains a null character")
  else if p.text.isEmpty then .error .absent
  else t.walk maxLinks (if p.isAbsolute then [] else t.current) p.pieces

def tooLong (p : Path) : Bool := maxPathBytes < p.text.utf8ByteSize

/-- A path that leads somewhere may be of any length. One that does not is looked up as a whole to
learn why, and then its length counts. -/
def resolve (t : FileTree) (p : Path) : Except AccessError Path :=
  match t.resolveNames p with
  | .ok names => .ok (.ofNames names)
  | .error e => .error (if tooLong p then nameTooLong else e)

def read (t : FileTree) (p : Path) : Except AccessError String := do
  if tooLong p then .error nameTooLong
  match t.entry? (← t.resolveNames p) with
  | some (.file bytes) =>
    match String.fromUTF8? bytes.toByteArray with
    | some text => .ok text
    | none => .error (.denied "stream did not contain valid UTF-8")
  | some .folder => .error (.denied "is a directory")
  | some (.link _) | none => .error .absent

/-- A path made absolute without a look at what stands there. -/
def absolutize (t : FileTree) (p : Path) : Path := ((Path.ofNames t.current).join p).normalize

def access (t : FileTree) : FileAccess Id := ⟨t.resolve, fun p => .ok (t.absolutize p), t.read⟩

end FileTree

end LiteralFill
