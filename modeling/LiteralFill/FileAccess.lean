import LiteralFill.Path

namespace LiteralFill

/-- Why a path could not be used: there is nothing there, or what is there cannot be reached or read. -/
inductive AccessError where
  | absent
  | denied (reason : String)
  deriving DecidableEq, Repr

/-- The file system as the tool uses it. `resolve` makes a path absolute with every link followed;
`absolutize` makes it absolute as it is written, whatever is there; `read` gives the text of a file. -/
structure FileAccess (m : Type → Type) where
  resolve : Path → m (Except AccessError Path)
  absolutize : Path → m (Except AccessError Path)
  read : Path → m (Except AccessError String)

/-- A path as seen from `dir`. What exists is resolved; anything else is only made absolute. -/
def FileAccess.resolveAgainst {m : Type → Type} [Monad m] (files : FileAccess m) (dir p : Path) :
    m Path := do
  let joined := dir.join p
  match ← files.resolve joined with
  | .ok path => return path
  | .error _ =>
    match ← files.absolutize joined with
    | .ok path => return path
    | .error _ => return joined

end LiteralFill
