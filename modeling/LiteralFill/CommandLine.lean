import LiteralFill.Diagnostic
import LiteralFill.Json.Render
import LiteralFill.Request

namespace LiteralFill

/-- What the flags of the tool ask for. -/
structure FillCommand where
  request : Request
  modified : Bool
  index? : Option Path
  warnOmitted : Bool
  deriving DecidableEq, Repr

inductive Command where
  | help
  | fill (command : FillCommand)
  deriving DecidableEq, Repr

inductive UsageError where
  | expectedValue (flag : String)
  | invalidValue (value flag : String)
  | unrecognized (flag : String)
  | missingFile
  deriving DecidableEq, Repr

def UsageError.message : UsageError → String
  | .expectedValue flag => s!"error: Expected value after '{flag}'"
  | .invalidValue value flag => s!"error: Invalid value '{value}' for '{flag}'"
  | .unrecognized flag => s!"error: Unrecognized option '{flag}'"
  | .missingFile => "error: Missing required option -file"

def helpText : String :=
  "usage: fillstruct [-modified] [-index <path>] -file <filename> [-offset <byte offset>] [-line <line>]

  -file <filename>    file containing the struct literal
  -offset <offset>    byte offset of the struct literal
  -line <line>        fill every struct literal on this line
  -modified           read an archive of modified files from stdin
  -index <path>       checked package index (default: fillstruct-index.json beside the file)
  -warn-omitted       warn about fields left out because their type cannot be named

Log filtering is controlled by the FILLSTRUCT_LOG environment variable.
"

/-- The flags read so far. A later value of a flag replaces an earlier one. -/
structure Flags where
  file? : Option String
  offset? : Option Nat
  line? : Option Nat
  modified : Bool
  index? : Option String
  warnOmitted : Bool

def Flags.unset : Flags := ⟨none, none, none, false, none, false⟩

inductive ValueFlag where
  | file | offset | line | index
  deriving DecidableEq, Repr

inductive SwitchFlag where
  | modified | warnOmitted
  deriving DecidableEq, Repr

/-- A flag with a value takes it after the equals sign or as the next argument; a switch is on
unless the text after its equals sign says otherwise. -/
inductive Flag where
  | value (flag : ValueFlag)
  | switch (flag : SwitchFlag)
  deriving DecidableEq, Repr

/-- The flag of a name, whatever dashes it starts with. -/
def Flag.ofName? (name : String) : Option Flag :=
  match String.ofList (name.toList.dropWhile (· = '-')) with
  | "file" => some (.value .file)
  | "offset" => some (.value .offset)
  | "line" => some (.value .line)
  | "index" => some (.value .index)
  | "modified" => some (.switch .modified)
  | "warn-omitted" => some (.switch .warnOmitted)
  | _ => none

/-- A position; zero stands for none. -/
def readPosition (bits : Nat) (name value : String) : Except UsageError (Option Nat) :=
  match Text.readNat? bits value with
  | some n => .ok (if n = 0 then none else some n)
  | none => .error (.invalidValue value name)

def Flags.setValue (flags : Flags) (name : String) (flag : ValueFlag) (value : String) :
    Except UsageError Flags := do
  match flag with
  | .file => return { flags with file? := some value }
  | .index => return { flags with index? := some value }
  | .offset => return { flags with offset? := ← readPosition 64 name value }
  | .line => return { flags with line? := ← readPosition 32 name value }

def readSwitch (name : String) : Option String → Except UsageError Bool
  | none | some "true" | some "1" => .ok true
  | some "false" | some "0" => .ok false
  | some value => .error (.invalidValue value name)

def Flags.setSwitch (flags : Flags) (name : String) (flag : SwitchFlag) (inline? : Option String) :
    Except UsageError Flags := do
  let on ← readSwitch name inline?
  match flag with
  | .modified => return { flags with modified := on }
  | .warnOmitted => return { flags with warnOmitted := on }

/-- An argument up to its first equals sign, and what stands after it. -/
def splitArgument (arg : String) : String × Option String :=
  match arg.toList.dropWhile (· ≠ '=') with
  | [] => (arg, none)
  | _ :: value => (String.ofList (arg.toList.takeWhile (· ≠ '=')), some (String.ofList value))

/-- Reads flags from left to right and stops at the first error. -/
def Flags.read (flags : Flags) : List String → Except UsageError Flags
  | [] => .ok flags
  | arg :: rest =>
    let (name, inline?) := splitArgument arg
    match Flag.ofName? name with
    | none => .error (.unrecognized name)
    | some (.switch flag) => do
      let flags ← flags.setSwitch name flag inline?
      flags.read rest
    | some (.value flag) =>
      match inline?, rest with
      | some value, rest => do
        let flags ← flags.setValue name flag value
        flags.read rest
      | none, value :: rest => do
        let flags ← flags.setValue name flag value
        flags.read rest
      | none, [] => .error (.expectedValue name)

def FillCommand.parse (args : List String) : Except UsageError FillCommand := do
  let flags ← Flags.unset.read args
  match flags.file? with
  | none => .error .missingFile
  | some file =>
    return ⟨⟨⟨file⟩, flags.offset?, flags.line?⟩, flags.modified, flags.index?.map Path.mk,
      flags.warnOmitted⟩

/-- The first argument alone decides whether help is wanted. -/
def Command.parse : List String → Except UsageError Command
  | [] | "-h" :: _ | "-help" :: _ | "--help" :: _ | "help" :: _ => .ok .help
  | args => (FillCommand.parse args).map .fill

/-- What a run writes, and whether it did what was asked. -/
structure Output where
  stdout : String
  stderr : String
  success : Bool
  deriving DecidableEq, Repr

/-- A run that ends in an error message. -/
def Output.failure (color : Bool) (message : String) : Output :=
  ⟨"", (Diagnostic.error message).text color ++ "\n", false⟩

/-- The surroundings of a run: files, the folder it runs in, and what is on standard input. -/
structure Environment (m : Type → Type) where
  files : FileAccess m
  current : Path
  stdin : m Archive
  color : Bool

/-- Colours are for terminals, unless the settings say otherwise: `force?` counts before `forbid?`, and
both before `allow?`. -/
def wantsColor (terminal : Bool) (allow? forbid? force? : Option String) : Bool :=
  if force?.any (· ≠ "0") then true
  else if forbid?.isSome then false
  else terminal && allow? ≠ some "0"

def omissionWarning (o : LocatedOmission) : Diagnostic :=
  ⟨.warning, s!"Omitted field '{o.omission.field}' since its type '{o.omission.hidden}' cannot be named here",
    some o.source⟩

/-- A line for each replacement, and one for each warning that is wanted. -/
def Produced.output (p : Produced) (color warn : Bool) : Output :=
  let warnings := if warn then
    p.omissions.filterMap fun o => (omissionWarning o).render? p.sources color else []
  ⟨String.join (p.replacements.map fun r => r.toJson.render ++ "\n"),
    String.join (warnings.map (· ++ "\n")), true⟩

/-- Runs the tool. Files that were modified are read from standard input before anything else. -/
def FillCommand.run {m : Type → Type} [Monad m] (env : Environment m) (c : FillCommand) :
    m (Except ProduceError Output) := do
  let overlay ← if c.modified then Overlay.ofArchive env.files env.current (← env.stdin)
    else pure (.ok .empty)
  match overlay with
  | .error e => return .ok (.failure env.color e.message)
  | .ok overlay =>
    match ← (c.request.produce (IndexLoader.load ⟨env.files, c.index?, overlay⟩)).run with
    | .error e =>
      return if e.isFault then .error e else .ok (.failure env.color e.message)
    | .ok produced => return .ok (produced.output env.color c.warnOmitted)

/-- Runs the tool on its arguments. Asking for help counts as a failure, so that no caller takes the
text for replacements. -/
def Command.runArgs {m : Type → Type} [Monad m] (env : Environment m) (args : List String) :
    m (Except ProduceError Output) :=
  match Command.parse args with
  | .error e => return .ok ⟨"", e.message ++ "\n", false⟩
  | .ok .help => return .ok ⟨helpText, "", false⟩
  | .ok (.fill c) => c.run env

end LiteralFill
