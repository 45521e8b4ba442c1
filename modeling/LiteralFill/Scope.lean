namespace LiteralFill

/-- The package that a type or a field is declared in. -/
structure Scope where
  path : String
  name : String
  deriving DecidableEq, Repr

structure Import where
  path : String
  name? : Option String
  deriving DecidableEq, Repr

/-- The package and the imports of the file in which names are written. -/
structure Qualifier where
  current : Scope
  imports : List Import
  deriving DecidableEq, Repr

namespace Qualifier

/-- The name under which a package is imported; of several named imports of it, the last one counts. -/
def rename? (q : Qualifier) (path : String) : Option String :=
  q.imports.reverse.findSome? fun i => if i.path = path then i.name? else none

/-- How a name of another package is written: alone, or after the name of its package. -/
inductive Lead where
  | bare
  | package (name : String)
  deriving DecidableEq, Repr

/-- What to write before a name declared in `scope`; nothing will do for a package that is only
imported for its side effects. -/
def lead? (q : Qualifier) (scope : Scope) : Option Lead :=
  if scope = q.current then some .bare
  else match q.rename? scope.path with
    | some "." => some .bare
    | some "_" => none
    | some name => some (.package name)
    | none => some (.package scope.name)

end Qualifier

end LiteralFill
