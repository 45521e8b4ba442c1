import LiteralFill.CommandLine

namespace LiteralFill

def AccessError.ofSystem : IO.Error → AccessError
  | .noFileOrDirectory .. => .absent
  | e => .denied (toString e)

/-- A path that does not resolve is opened to learn why. -/
def resolveOnDisk (p : Path) : IO (Except AccessError Path) := do
  try
    let resolved ← IO.FS.realPath p.text
    return .ok ⟨resolved.toString⟩
  catch _ =>
    try
      let _ ← IO.FS.Handle.mk p.text .read
      return .error (.denied "cannot be resolved")
    catch e => return .error (.ofSystem e)

/-- What stands at the path does not matter, only the folder that a relative one starts from. -/
def absolutizeOnDisk (p : Path) : IO (Except AccessError Path) := do
  if p.isAbsolute then return .ok p.normalize
  try
    let current ← IO.currentDir
    return .ok ((Path.mk current.toString).join p).normalize
  catch e => return .error (.ofSystem e)

def readOnDisk (p : Path) : IO (Except AccessError String) := do
  try
    match String.fromUTF8? (← IO.FS.readBinFile p.text) with
    | some text => return .ok text
    | none => return .error (.denied "stream did not contain valid UTF-8")
  catch e => return .error (.ofSystem e)

/-- Everything up to the end of a stream, after what was read before. -/
partial def readToEnd (stream : IO.FS.Stream) (before : List UInt8) : IO Archive := do
  try
    let chunk ← stream.read 65536
    if chunk.isEmpty then return ⟨before, none⟩
    readToEnd stream (before ++ chunk.data.toList)
  catch e => return ⟨before, some (toString e)⟩

/-- The surroundings of the running process. -/
def systemEnvironment : IO (Environment IO) := do
  let current ← IO.currentDir
  let color := wantsColor (← (← IO.getStdout).isTty) (← IO.getEnv "CLICOLOR") (← IO.getEnv "NO_COLOR")
    (← IO.getEnv "CLICOLOR_FORCE")
  let stdin ← IO.getStdin
  return ⟨⟨resolveOnDisk, absolutizeOnDisk, readOnDisk⟩, ⟨current.toString⟩, readToEnd stdin [], color⟩

end LiteralFill

open LiteralFill in
def main (args : List String) : IO UInt32 := do
  match ← Command.runArgs (← systemEnvironment) args with
  | .error e =>
    IO.eprintln e.message
    return 101
  | .ok output =>
    IO.eprint output.stderr
    IO.print output.stdout
    return if output.success then 0 else 1
