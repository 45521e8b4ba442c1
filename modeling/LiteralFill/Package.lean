import LiteralFill.Expr.Basic
import LiteralFill.Path
import LiteralFill.TypeTable

namespace LiteralFill

/-- A composite literal in a file: the bytes from `start` up to `stop`, and its checked type. -/
structure LiteralSite where
  start : Nat
  stop : Nat
  ty : Ty
  literal : Literal
  /-- Whether the literal around it tells the type in its place. -/
  typeElided : Bool

def LiteralSite.span (s : LiteralSite) : Nat := s.stop - s.start

/-- Both ends count, so that a cursor right behind the closing brace is still at the literal. -/
def LiteralSite.contains (s : LiteralSite) (offset : Nat) : Bool :=
  s.start ≤ offset && offset ≤ s.stop

structure CheckedFile where
  path : Path
  imports : List Import
  literals : List LiteralSite

/-- A package after type checking. -/
structure CheckedPackage where
  scope : Scope
  types : TypeTable
  files : List CheckedFile

def CheckedPackage.file? (p : CheckedPackage) (path : Path) : Option CheckedFile :=
  p.files.find? (·.path.same path)

/-- How names are written inside a file of the package. -/
def CheckedPackage.qualifier (p : CheckedPackage) (f : CheckedFile) : Qualifier :=
  ⟨p.scope, f.imports⟩

end LiteralFill
