import LiteralFill.Fill
import LiteralFill.Index.Loader
import LiteralFill.Locate
import LiteralFill.Printer

namespace LiteralFill

/-- A literal to fill: the one at a byte offset, or those on a line. -/
structure Request where
  file : Path
  offset? : Option Nat
  line? : Option Nat
  deriving DecidableEq, Repr

/-- New text for the bytes from `start` up to `stop` of the requested file. -/
structure Replacement where
  start : Nat
  stop : Nat
  code : String
  deriving DecidableEq, Repr

def Replacement.toJson (r : Replacement) : Json :=
  .obj [("start", .nat r.start), ("end", .nat r.stop), ("code", .str r.code)]

/-- A field left out of a replacement, and where its literal starts. -/
structure LocatedOmission where
  source : Source
  omission : Omission
  deriving DecidableEq, Repr

structure Produced where
  replacements : List Replacement
  omissions : List LocatedOmission
  sources : SourceFiles

inductive ProduceError where
  | missingPosition
  | load (error : LoadError)
  | locate (error : LocateError)
  | fill (error : FillError)
  deriving DecidableEq, Repr

namespace ProduceError

def message : ProduceError → String
  | .missingPosition => "Either -offset or -line must be given"
  | .load error => error.message
  | .locate error => error.message
  | .fill error => error.message

def isNotFound (e : ProduceError) : Bool := e == .locate .notFound

/-- Whether the error lies in a type table that breaks its promises, or in a type without end. -/
def isFault : ProduceError → Bool
  | .locate (.fault _) | .fill (.fault _) | .fill .tooDeep => true
  | _ => false

end ProduceError

/-- The literals a request is about. The line counts if there is none at the offset, or no offset;
its literals come last first. -/
def Request.locate (r : Request) (loaded : Loaded) : Except LocateError (List Located) :=
  let onLine := fun line =>
    (locateLine loaded.package loaded.sources loaded.path line).map List.reverse
  match r.offset?, r.line? with
  | some offset, line? =>
    match locateOffset loaded.package loaded.sources loaded.path offset, line? with
    | .ok l, _ => .ok [l]
    | .error .notFound, some line => onLine line
    | .error e, _ => .error e
  | none, some line => onLine line
  | none, none => .error .notFound

/-- A located literal filled in, with the fields left out of it. -/
def fillLocated (p : CheckedPackage) (l : Located) :
    Except FillError (Replacement × List Omission) := do
  let filled ← fill descentLimit ⟨p.types, p.qualifier l.file⟩ l.site.literal l.site.ty l.site.typeElided
  return (⟨l.site.start, l.site.stop, filled.expr.format filled.lines⟩, filled.omitted)

/-- The answer to a request about a loaded package. The first literal that cannot be filled fails it. -/
def Request.answer (r : Request) (loaded : Loaded) : Except ProduceError Produced := do
  let located ← (r.locate loaded).mapError .locate
  let filled ← (located.mapM (fillLocated loaded.package)).mapError .fill
  return ⟨filled.map (·.1),
    filled.flatMap fun (replacement, omitted) =>
      omitted.map fun o => ⟨loaded.sources.sourceAt loaded.path replacement.start, o⟩,
    loaded.sources⟩

/-- Loads the package of the requested file and answers. Nothing is loaded for a request without a
position. -/
def Request.produce {m : Type → Type} [Monad m] (r : Request) (load : Path → ExceptT LoadError m Loaded) :
    ExceptT ProduceError m Produced := do
  if r.offset?.isNone && r.line?.isNone then throw .missingPosition
  let loaded ← (load r.file).adapt .load
  r.answer loaded

end LiteralFill
