import LiteralFill.Package
import LiteralFill.SourceFiles

namespace LiteralFill

/-- A literal site, its number among those of its file, and the file. -/
structure Located where
  file : CheckedFile
  number : Nat
  site : LiteralSite

inductive LocateError where
  | notFound
  | offsetBeyondFile (size offset : Nat)
  | fileNotInPackage (path : Path)
  | fault (fault : Fault)
  deriving DecidableEq, Repr

def LocateError.message : LocateError → String
  | .notFound => "No struct literal found at selection"
  | .offsetBeyondFile size offset => s!"File size ({size}) is smaller than given offset ({offset})"
  | .fileNotInPackage path => s!"Could not find file '{path.text}'"
  | .fault f => f.message

/-- A file of the package, numbered sites and all, and its text. -/
def lookupFile (p : CheckedPackage) (files : SourceFiles) (path : Path) :
    Except LocateError (List Located × SourceFile) :=
  match p.file? path, (files.find? path).bind files.get? with
  | some file, some source => .ok (file.literals.zipIdx.map fun (site, i) => ⟨file, i, site⟩, source)
  | _, _ => .error (.fileNotInPackage path)

def Located.isStruct (p : CheckedPackage) (l : Located) : Except LocateError Bool :=
  match p.types.underlying l.site.ty with
  | .ok ty => .ok ty.isStruct
  | .error f => .error (.fault f)

/-- The first of the shortest sites. -/
def innermost? : List Located → Option Located
  | [] => none
  | l :: rest =>
    match innermost? rest with
    | some m => if m.site.span < l.site.span then some m else some l
    | none => some l

/-- The innermost literal around `offset`, which has to be a struct literal. -/
def locateOffset (p : CheckedPackage) (files : SourceFiles) (path : Path) (offset : Nat) :
    Except LocateError Located := do
  let (sites, source) ← lookupFile p files path
  if source.size < offset then .error (.offsetBeyondFile source.size offset)
  else match innermost? (sites.filter (·.site.contains offset)) with
    | none => .error .notFound
    | some l => if ← l.isStruct p then .ok l else .error .notFound

/-- Whether a site reaches into a line. -/
def SourceFile.covers (f : SourceFile) (line : Nat) (s : LiteralSite) : Bool :=
  f.lineAt s.start ≤ line && line ≤ f.lineAt s.stop

def structSites (p : CheckedPackage) : List Located → Except LocateError (List Located)
  | [] => .ok []
  | l :: rest => do
    let keep ← l.isStruct p
    let rest ← structSites p rest
    return if keep then l :: rest else rest

/-- Every struct literal that reaches into `line`, by where it starts. -/
def locateLine (p : CheckedPackage) (files : SourceFiles) (path : Path) (line : Nat) :
    Except LocateError (List Located) := do
  let (sites, source) ← lookupFile p files path
  let found ← structSites p (sites.filter (source.covers line ·.site))
  if found.isEmpty then .error .notFound
  else .ok (found.mergeSort fun a b => a.site.start ≤ b.site.start)

end LiteralFill
