import LiteralFill.SourceFiles

namespace LiteralFill

inductive Severity where
  | error | warning
  deriving DecidableEq, Repr

/-- Terminal escapes for bold letters in a colour. -/
def boldText (colour : Nat) (text : String) : String := s!"\x1b[1;{colour}m{text}\x1b[0m"

def Severity.label (color : Bool) : Severity → String
  | .error => if color then boldText 31 "error:" else "error:"
  | .warning => if color then boldText 33 "warning:" else "warning:"

/-- A message about the input, with the place it is about. -/
structure Diagnostic where
  severity : Severity
  message : String
  source? : Option Source

namespace Diagnostic

def error (message : String) : Diagnostic := ⟨.error, message, none⟩

/-- Errors do not tell a place that belongs to no input; warnings tell any. -/
def located? (d : Diagnostic) : Option Source :=
  match d.severity with
  | .error => d.source?.filter (!·.isInternal)
  | .warning => d.source?

/-- The message behind its label. -/
def text (color : Bool) (d : Diagnostic) : String := d.severity.label color ++ " " ++ d.message

/-- The text of a diagnostic at its place, unless that is in none of the files. -/
def render? (files : SourceFiles) (color : Bool) (d : Diagnostic) : Option String :=
  match d.located? with
  | none => some (d.text color)
  | some source =>
    (files.get? source.key).map fun f => f.path.text ++ ":" ++ source.location.text ++ ": " ++ d.text color

end Diagnostic

end LiteralFill
