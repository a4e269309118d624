import Lox.Proofs.Command.Lines
import Lox.Proofs.Command.Verdict
import Lox.Proofs.Settings.RoundTrip

/-!
The layers of settings: the file, the environment and the options. A layer that cannot be read ends
the command, whatever the layers above it say; otherwise each field comes from the topmost layer
that has it, except that flags add to what the file asks for (`execute_layers`).
-/

namespace Lox.Command

/-- The file of settings: none, or one with the text. -/
inductive World.Holds (w : World) (path : String) : Option String → Prop
  | missing (h : w.entry path = .missing) : w.Holds path none
  | text {bytes : List UInt8} {text : String} (h : w.entry path = .file bytes)
    (htext : textOfBytes? bytes = some text) : w.Holds path (some text)

/-- The settings below the environment. -/
def fileLayer : Option String → Except Settings.Problem Settings
  | none => .ok .standard
  | some text => Settings.ofFile text

/-- The depth in the environment, if there is one. -/
def depthLayer : Option String → Except Settings.Problem (Option Nat)
  | none => .ok none
  | some text => match Settings.depth? (Text.trimmed text.toList) with
    | some n => .ok (some n)
    | none => .error (.depth text)

/-- The settings of the file under the environment and the options. -/
def layered (s : Settings) (debug? : Option String) (depth? : Option Nat) (o : Options) :
    Settings where
  maxDepth := (o.maxDepth.or depth?).getD s.maxDepth
  printTokens := s.printTokens || o.tokens
  printAst := s.printAst || o.ast
  prompt := s.prompt
  debug := (debug?.map fun text => Settings.isYes (Text.trimmed text.toList)).getD s.debug

/-- What a task does that evaluates, by the settings in the end, and its options. -/
inductive Evaluates :
    Task → Options → (Settings → ExceptT Failure World.Program Unit) → Prop
  | file (path : String) (o : Options) :
    Evaluates (.evaluateFile path o) o fun s => evaluateFile World.host s o.json path
  | text (source : String) (o : Options) :
    Evaluates (.evaluateText source o) o fun s =>
      evaluateText World.host s o.json argumentName source
  | prompt (o : Options) : Evaluates (.prompt o) o fun s => prompt World.host s o.json

theorem Evaluates.perform_eq {task : Task} {o : Options}
    {p : Settings → ExceptT Failure World.Program Unit} (h : Evaluates task o p) (s : Settings)
    (path : String) : perform World.host s path task = p (o.apply s) := by
  cases h <;> rfl

/-- The exit status of a program, whose failure goes to the error output. -/
def conclude (p : ExceptT Failure World.Program Unit) (w : World) : Nat × World :=
  match p w with
  | (.ok (), w') => (0, w')
  | (.error failure, w') => (1, { w' with errors := w'.errors ++ failure.text })

theorem execute_eq_conclude {args : List String} {asked : Invocation}
    (hargs : Arguments.parse args = some asked) (w : World) :
    execute World.host args w = conclude (dispatch World.host asked) w := by
  unfold conclude
  split
  · next w' h => exact execute_of_ok hargs h
  · next failure w' h => exact execute_of_error hargs h

/-! ## Loading -/

theorem apply_layered (s : Settings) (debug? : Option String) (depth? : Option Nat) (o : Options) :
    o.apply (layered s debug? depth? .none) = layered s debug? depth? o := by
  cases h : o.maxDepth <;> simp [Options.apply, layered, Options.none, h]

theorem layered_none (s : Settings) : layered s none none .none = s := by
  simp [layered, Options.none]

theorem underEnvironment_eq (s : Settings) (debug? depth? : Option String) :
    s.underEnvironment debug? depth? = match depthLayer depth? with
      | .ok n? => (layered s debug? n? .none, none)
      | .error problem => (s.withDebug debug?, some problem) := by
  have hdebug : s.withDebug debug? = layered s debug? none .none := by
    cases debug? <;> simp [Settings.withDebug, layered, Options.none]
  unfold Settings.underEnvironment Settings.withDepth depthLayer
  cases depth? with
  | none => simp [hdebug]
  | some text =>
    dsimp only
    cases hdepth : Settings.depth? (Text.trimmed text.toList) with
    | none => rfl
    | some n => simp [hdebug, layered, Options.none]

section
variable {w : World} {path : String} {file? : Option String}
  (hpath : (configPath World.host w).1 = .ok path) (hfile : w.Holds path file?)

include hfile in
theorem settingsAt_run : settingsAt World.host path w = (match fileLayer file? with
    | .ok s => .ok s
    | .error problem => .error (.settings problem.message), w) := by
  cases hfile with
  | missing h =>
    rw [settingsAt, bind_of_ok (entry_run path w), h]
    rfl
  | @text bytes text h htext =>
    rw [settingsAt, bind_of_ok (entry_run path w), h]
    simp only [htext, fileLayer]
    cases Settings.ofFile text with
    | ok s => rfl
    | error problem => rfl

include hpath in
theorem configPath_eq : configPath World.host w = (.ok path, w) :=
  hpath ▸ configPath_reads.run_eq w

include hpath hfile

/-- A file that cannot be read is found before the environment is looked at. -/
theorem loadSettings_run : loadSettings World.host w =
    (match fileLayer file?, depthLayer (w.environment.lookup "LOX_MAX_DEPTH") with
      | .error problem, _ => .error (.settings problem.message)
      | .ok _, .error problem => .error (.settings problem.message)
      | .ok s, .ok depth? =>
        .ok (layered s (w.environment.lookup "LOX_DEBUG") depth? .none), w) := by
  have hsettings := settingsAt_run hfile
  rw [loadSettings, bind_of_ok (configPath_eq hpath)]
  cases hlayer : fileLayer file? with
  | error problem =>
    rw [hlayer] at hsettings
    exact bind_of_error hsettings
  | ok s =>
    rw [hlayer] at hsettings
    rw [bind_of_ok hsettings, bind_of_ok (valueOf?_run _ _), bind_of_ok (valueOf?_run _ _),
      underEnvironment_eq]
    cases depthLayer (w.environment.lookup "LOX_MAX_DEPTH") with
    | error problem => rfl
    | ok depth? => rfl

/-- What a command that evaluates comes to, by its layers of settings. Where the file or the depth
in the environment cannot be read, that is all there is to it: the exit status is 1 and nothing is
written but the problem, whatever the options are. Otherwise the task is done under the settings
that the layers come to. -/
theorem execute_layers {args : List String} {task : Task} {o : Options}
    {p : Settings → ExceptT Failure World.Program Unit}
    (hargs : Arguments.parse args = some (.task task)) (htask : Evaluates task o p) :
    execute World.host args w =
      match fileLayer file?, depthLayer (w.environment.lookup "LOX_MAX_DEPTH") with
      | .error problem, _ => (1, w.showing "" ("ConfigError: " ++ problem.message ++ "\n"))
      | .ok _, .error problem => (1, w.showing "" ("ConfigError: " ++ problem.message ++ "\n"))
      | .ok s, .ok depth? =>
        let s := layered s (w.environment.lookup "LOX_DEBUG") depth? o
        conclude (p s) (w.showing "" (traceText s ("config path: " ++ path))) := by
  have hload := loadSettings_run hpath hfile
  have hfails {problem : Settings.Problem}
      (h : loadSettings World.host w = (.error (.settings problem.message), w)) :
      execute World.host args w =
        (1, w.showing "" ("ConfigError: " ++ problem.message ++ "\n")) := by
    rw [execute_of_error hargs (bind_of_error h), World.showing, String.append_empty]
    rfl
  cases hlayer : fileLayer file? with
  | error problem =>
    rw [hlayer] at hload
    exact hfails hload
  | ok s =>
    cases hdepth : depthLayer (w.environment.lookup "LOX_MAX_DEPTH") with
    | error problem =>
      rw [hlayer, hdepth] at hload
      exact hfails hload
    | ok depth? =>
      rw [hlayer, hdepth] at hload
      let s' := layered s (w.environment.lookup "LOX_DEBUG") depth? o
      -- the trace is written before the options are looked at, but they leave it to the settings
      have hdispatch : dispatch World.host (.task task) w =
          p s' (w.showing "" (traceText s' ("config path: " ++ path))) := by
        rw [dispatch, bind_of_ok hload, bind_of_ok (configPath_eq hpath),
          bind_of_ok (trace_run _ _ w), htask.perform_eq, apply_layered]
        rfl
      rw [execute_eq_conclude hargs, conclude, hdispatch]
      rfl

end

/-- An option overrides a depth in the environment, but does not mask one that is not a number. -/
theorem execute_layers_overridden :
    let file : Settings := ⟨7, false, true, "? ", true⟩
    let w (depth : String) : World :=
      ⟨[("LOX_CONFIG", "lox.json"), ("LOX_DEBUG", " no"), ("LOX_MAX_DEPTH", depth)],
        ⟨[(["lox.json"], .file (bytesOfText file.text))]⟩, [], "", ""⟩
    let args := ["eval", "--tokens", "--max-depth", "3", "nil"]
    execute World.host args (w " +9\n") = conclude
        (evaluateText World.host ⟨3, true, true, "? ", false⟩ false argumentName "nil")
        (w " +9\n") ∧
      execute World.host args (w "deep") = (1, (w "deep").showing ""
        "ConfigError: LOX_MAX_DEPTH must be an integer, got \"deep\"\n") := by
  intro file w args
  have hpath (depth : String) : (configPath World.host (w depth)).1 = .ok "lox.json" := rfl
  have hfile (depth : String) : (w depth).Holds "lox.json" (some file.text) :=
    .text rfl (textOfBytes?_bytesOfText file.text)
  have hargs : Arguments.parse args =
      some (.task (.evaluateText "nil" ⟨true, false, false, some 3⟩)) := by decide
  have hlayer : fileLayer (some file.text) = .ok file := by
    rw [fileLayer, Settings.ofFile, Settings.ofText_text (by decide : 7 < UInt64.size)]
  have hvalid := execute_layers (hpath " +9\n") (hfile " +9\n") hargs (.text _ _)
  have hinvalid := execute_layers (hpath "deep") (hfile "deep") hargs (.text _ _)
  rw [hlayer] at hvalid hinvalid
  exact ⟨hvalid, hinvalid⟩

end Lox.Command
