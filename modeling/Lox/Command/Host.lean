import Lox.Command.Failure
import Lox.Files.Tree

/-!
What the command needs of the world around it, and a world in memory that provides it.
-/

namespace Lox.Command

/-- What a path stands for. -/
inductive Entry
  | missing
  | directory
  | file (bytes : List UInt8)
deriving DecidableEq, Repr, Inhabited

/-- Access to the world from programs in `m`. -/
structure Host (m : Type → Type) where
  valueOf? : String → m (Option String)
  entry : String → m Entry
  /-- Makes the directories that a path lies in and writes a file, or tells why not. -/
  save : String → String → m (Option String)
  write : String → m Unit
  writeError : String → m Unit
  /-- Runs the second program on each line of input, and the first one ahead of each line and of the
  end. A line has no line break; it is none if it is not text. -/
  forEachLine : ExceptT Failure m Unit → (Option String → ExceptT Failure m Unit) →
    ExceptT Failure m Unit

/-! ## A world in memory -/

structure World where
  environment : List (String × String)
  files : Files.Tree
  input : List UInt8
  output : String
  errors : String
deriving Inhabited

/-- The text that bytes encode, if they do. -/
def textOfBytes? (bytes : List UInt8) : Option String :=
  String.fromUTF8? ⟨bytes.toArray⟩

def bytesOfText (text : String) : List UInt8 :=
  text.toUTF8.toList

/-- The line without its line break; the last line may have none, and then keeps a carriage return
at its end. -/
def withoutBreak (line : List UInt8) (isComplete : Bool) : List UInt8 :=
  if isComplete && line.getLast? = some 13 then line.dropLast else line

/-- Cuts bytes into lines; `done` are the bytes of the current line, the last one first. An empty
last line is none. -/
def linesOf (done : List UInt8) : List UInt8 → List (List UInt8)
  | [] => if done.isEmpty then [] else [withoutBreak done.reverse false]
  | b :: bytes =>
    if b = 10 then withoutBreak done.reverse true :: linesOf [] bytes
    else linesOf (b :: done) bytes

namespace World

abbrev Program := StateM World

def entry (w : World) (path : String) : Entry :=
  match Files.Path.ofText? path with
  | none => .missing
  | some p => match w.files.find p with
    | .ok (.file bytes) => .file bytes
    | .ok .directory => .directory
    | .error _ => .missing

/-- The files after writing one. The directories that were made on the way stay if that fails. -/
def save (w : World) (path text : String) : Option String × World :=
  match Files.Path.ofText? path with
  | none => (some Files.Refusal.notFound.text, w)
  | some p => match w.files.makeParents p with
    | .error r => (some r.text, w)
    | .ok made => match made.writeFile p (bytesOfText text) with
      | .error r => (some r.text, { w with files := made })
      | .ok files => (none, { w with files })

/-- Runs two programs in turn over lines. -/
def forEachLine (before : ExceptT Failure Program Unit)
    (body : Option String → ExceptT Failure Program Unit) :
    List (List UInt8) → ExceptT Failure Program Unit
  | [] => before
  | line :: lines => do
    before
    body (textOfBytes? line)
    forEachLine before body lines

def host : Host Program where
  valueOf? name := return (← get).environment.lookup name
  entry path := return (← get).entry path
  save path text := modifyGet (·.save path text)
  write text := modify fun w => { w with output := w.output ++ text }
  writeError text := modify fun w => { w with errors := w.errors ++ text }
  forEachLine before body := do
    World.forEachLine before body (linesOf [] (← get).input)

end World

end Lox.Command
