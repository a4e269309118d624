import Lox.Command.Arguments
import Lox.Command.Host
import Lox.Run.Display
import Lox.Settings.Environment

/-!
The command: it loads the settings, then does what the arguments ask for. Results go to the output
and errors to the error output; the exit status is 0 if all went well, 1 after a failure, and 2 if
the arguments cannot be understood, in which case nothing else is done.
-/

namespace Lox.Command

def versionText : String := "lox-expr 0.1.0"

def notText : String := "stream did not contain valid UTF-8"

/-- The name under which a text from the command line appears in messages. -/
def argumentName : String := "<eval>"

section
variable {m : Type → Type} [Monad m] (host : Host m)

/-! ## Settings -/

/-- Where the file of settings is: where a variable says, or else below the home directory. -/
def configPath : ExceptT Failure m String := do
  match ← host.valueOf? "LOX_CONFIG" with
  | some path => return path
  | none =>
    let home := (← host.valueOf? "HOME").getD "."
    return Files.Path.join (Files.Path.join home ".lox") "config.json"

/-- The settings in the file at a path, or the standard ones if there is no such file. -/
def settingsAt (path : String) : ExceptT Failure m Settings := do
  match ← host.entry path with
  | .missing => return .standard
  | .directory => throw (.inputOutput Files.Refusal.isDirectory.text)
  | .file bytes => match textOfBytes? bytes with
    | none => throw (.inputOutput notText)
    | some contents => match Settings.ofFile contents with
      | .ok s => return s
      | .error problem => throw (.settings problem.message)

/-- The settings in the file, under the environment. -/
def loadSettings : ExceptT Failure m Settings := do
  let s ← settingsAt host (← configPath host)
  match s.underEnvironment (← host.valueOf? "LOX_DEBUG") (← host.valueOf? "LOX_MAX_DEPTH") with
  | (s, none) => return s
  | (_, some problem) => throw (.settings problem.message)

/-- Tells what the command is doing, if the settings ask for it. -/
def trace (s : Settings) (text : String) : ExceptT Failure m Unit := do
  if s.debug then host.writeError ("[debug] " ++ text ++ "\n")

/-! ## Evaluation -/

/-- Shows a source and hands over its errors. -/
def evaluate (s : Settings) (json : Bool) (source : String) : ExceptT Failure m Diagnostics := do
  match s.display json source with
  | .error f => throw (.fault f.message)
  | .ok shown =>
    trace host s ("scanned " ++ toString shown.tokenCount ++ " tokens, " ++
      toString shown.diagnostics.syntaxErrors.length ++ " syntax errors, " ++
      toString shown.diagnostics.runtimeErrors.length ++ " runtime errors")
    host.write shown.output
    return shown.diagnostics

/-- Fails with the errors of a source, if there are any: with those before evaluation alone if there
are such. -/
def check (name : String) (d : Diagnostics) : Except Failure Unit :=
  if d.hasSyntaxErrors then .error (.source name d.syntaxErrors)
  else if d.hasRuntimeErrors then .error (.evaluation name d.runtimeErrors)
  else .ok ()

def evaluateText (s : Settings) (json : Bool) (name source : String) : ExceptT Failure m Unit := do
  ExceptT.mk (pure (check name (← evaluate host s json source)))

def evaluateFile (s : Settings) (json : Bool) (path : String) : ExceptT Failure m Unit := do
  trace host s ("reading " ++ path)
  match ← host.entry path with
  | .missing => throw (.sourceNotFound ("Source file not found: " ++ path))
  | .directory => throw (.inputOutput Files.Refusal.isDirectory.text)
  | .file bytes => match textOfBytes? bytes with
    | none => throw (.inputOutput notText)
    | some source => evaluateText host s json path source

/-- Evaluates one line of input; its errors do not end the session. -/
def evaluateLine (s : Settings) (json : Bool) : Option String → ExceptT Failure m Unit
  | none => throw (.inputOutput notText)
  | some line => do
    let d ← evaluate host s json line
    if d.hasSyntaxErrors then host.writeError (d.dumpSyntax ++ "\n")
    if d.hasRuntimeErrors then host.writeError (d.dumpRuntime ++ "\n")

/-- Prompts for lines and evaluates each, until the input ends. -/
def prompt (s : Settings) (json : Bool) : ExceptT Failure m Unit := do
  host.forEachLine (host.write s.prompt) (evaluateLine host s json)
  host.write "\n"

/-! ## The file of settings -/

/-- Writes a file with the standard settings, unless there is something at its path. -/
def createConfig (path : String) : ExceptT Failure m Unit := do
  match ← host.entry path with
  | .missing =>
    match ← host.save path Settings.standard.text with
    | some text => throw (.inputOutput text)
    | none => host.write ("Initialized new config file at: " ++ path ++ "\n")
  | _ =>
    host.write ("Config file already exists at: " ++ path ++ "\n")
    host.write "Remove it to reinitialize.\n"

def config (s : Settings) (path : String) : ConfigAction → ExceptT Failure m Unit
  | .print => host.write (s.text ++ "\n")
  | .create => createConfig host path
  | .locate => host.write (path ++ "\n")

/-! ## The whole command -/

/-- Does a task under the settings, which come from the file at the given path. -/
def perform (s : Settings) (path : String) : Task → ExceptT Failure m Unit
  | .evaluateFile file o => evaluateFile host (o.apply s) o.json file
  | .evaluateText source o => evaluateText host (o.apply s) o.json argumentName source
  | .prompt o => prompt host (o.apply s) o.json
  | .config action => config host s path action

def dispatch : Invocation → ExceptT Failure m Unit
  | .version => host.write (versionText ++ "\n")
  | .task task => do
    let s ← loadSettings host
    let path ← configPath host
    trace host s ("config path: " ++ path)
    perform host s path task

/-- Runs the command and returns its exit status. -/
def execute (args : List String) : m Nat := do
  match Arguments.parse args with
  | none => return 2
  | some asked =>
    match ← (dispatch host asked).run with
    | .ok () => return 0
    | .error failure =>
      host.writeError failure.text
      return 1

end

end Lox.Command
