import Lox.Command.Execution

/-!
The command as a program: its world is the operating system's.
-/

namespace Lox.Main

open Command

/-- The wording of a failed operation on files. -/
def describe : IO.Error → String
  | .noFileOrDirectory .. => Files.Refusal.notFound.text
  | .alreadyExists .. => Files.Refusal.alreadyThere.text
  | .inappropriateType _ 21 _ => Files.Refusal.isDirectory.text
  | .inappropriateType .. => Files.Refusal.notDirectory.text
  | e => toString e

def entry (path : String) : IO Entry := do
  try
    return .file (← IO.FS.readBinFile path).toList
  catch
    | .inappropriateType _ 21 _ => return .directory
    | _ => return .missing

def save (path text : String) : IO (Option String) := do
  try
    let parent := "/".intercalate (path.splitOn "/").dropLast
    if parent != "" then IO.FS.createDirAll parent
    IO.FS.writeFile path text
    return none
  catch e =>
    return some (describe e)

/-- The bytes up to the next line break, and whether there is one. -/
partial def readLine (input : IO.FS.Stream) (done : List UInt8) : IO (List UInt8 × Bool) := do
  match (← input.read 1).toList with
  | [] => return (done.reverse, false)
  | b :: _ => if b = 10 then return (done.reverse, true) else readLine input (b :: done)

partial def forEachLine (before : ExceptT Failure IO Unit)
    (body : Option String → ExceptT Failure IO Unit) : ExceptT Failure IO Unit := do
  before
  let (line, isComplete) ← readLine (← IO.getStdin) []
  if isComplete || !line.isEmpty then
    body (textOfBytes? (withoutBreak line isComplete))
    forEachLine before body

def writeTo (stream : IO IO.FS.Stream) (text : String) : IO Unit := do
  let stream ← stream
  stream.putStr text
  stream.flush

def host : Host IO where
  valueOf? name := IO.getEnv name
  entry := entry
  save := save
  write := writeTo IO.getStdout
  writeError := writeTo IO.getStderr
  forEachLine := forEachLine

end Lox.Main

def main (args : List String) : IO UInt32 := do
  return UInt32.ofNat (← Lox.Command.execute Lox.Main.host args)
