import Lox.Proofs.Command.Programs
import Lox.Proofs.Run.Display

/-!
The two forms in which results are shown. Whatever the command is called for, the form makes no
difference to its exit status, to its errors and to the world it leaves, but for the output itself.
-/

namespace Lox.Command

/-! ## Settings -/

theorem configPath_reads : Reads (configPath World.host) := by
  refine (Reads.valueOf? _).bind fun path? => ?_
  cases path? with
  | some path => exact .of_except (.ok path)
  | none => exact (Reads.valueOf? _).bind fun home? => .of_except (.ok _)

theorem settingsAt_reads (path : String) : Reads (settingsAt World.host path) := by
  refine (Reads.entry path).bind fun entry => ?_
  cases entry with
  | missing => exact .of_except (.ok _)
  | directory => exact .of_except (.error _)
  | file bytes =>
    dsimp only
    split
    · exact .of_except (.error _)
    · split
      · exact .of_except (.ok _)
      · exact .of_except (.error _)

theorem loadSettings_reads : Reads (loadSettings World.host) := by
  refine configPath_reads.bind fun path => (settingsAt_reads path).bind fun s => ?_
  refine (Reads.valueOf? _).bind fun debug? => (Reads.valueOf? _).bind fun depth? => ?_
  split
  · exact .of_except (.ok _)
  · exact .of_except (.error _)

section
variable (s : Settings) (json json' : Bool)

end

/-! ## The whole command -/

/-- The task with its results in this form. -/
def Task.inMode (json : Bool) : Task → Task
  | .evaluateFile path o => .evaluateFile path { o with json }
  | .evaluateText source o => .evaluateText source { o with json }
  | .prompt o => .prompt { o with json }
  | .config action => .config action

section
variable {args : List String} {asked : Invocation} {w w' : World}

theorem execute_of_ok (hargs : Arguments.parse args = some asked)
    (h : dispatch World.host asked w = (.ok (), w')) : execute World.host args w = (0, w') := by
  simp only [execute, hargs, bind, StateT.bind, ExceptT.run, h]
  rfl

theorem execute_of_error {failure : Failure} (hargs : Arguments.parse args = some asked)
    (h : dispatch World.host asked w = (.error failure, w')) :
    execute World.host args w = (1, { w' with errors := w'.errors ++ failure.text }) := by
  simp only [execute, hargs, bind, StateT.bind, ExceptT.run, h]
  rfl

end

end Lox.Command
