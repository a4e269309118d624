import Lox.Proofs.Command.Modes

/-!
The verdict on a source. A source that the command is called for is shown in one form or the other,
and in either one the exit status and the error output are those that its errors call for
(`modes_agree`).
-/

namespace Lox.Command

/-- The world after so much more output and errors. -/
def World.showing (w : World) (output errors : String) : World :=
  { w with output := w.output ++ output, errors := w.errors ++ errors }

theorem World.showing_showing (w : World) (output errors output' errors' : String) :
    (w.showing output errors).showing output' errors' =
      w.showing (output ++ output') (errors ++ errors') := by
  simp [showing, String.append_assoc]

/-- What a trace adds to the error output. -/
def traceText (s : Settings) (text : String) : String :=
  if s.debug then "[debug] " ++ text ++ "\n" else ""

/-- The trace of an evaluation. -/
def countsText (tokenCount : Nat) (d : Diagnostics) : String :=
  "scanned " ++ toString tokenCount ++ " tokens, " ++
    toString d.syntaxErrors.length ++ " syntax errors, " ++
    toString d.runtimeErrors.length ++ " runtime errors"

/-- A text that is written only if the settings ask for traces. -/
def IsTrace (s : Settings) (text : String) : Prop :=
  s.debug = false → text = ""

/-- What the command says of the errors of a source: it names those before evaluation alone if there
are such. -/
def complaint (name : String) (d : Diagnostics) : String :=
  if d.syntaxErrors ≠ [] then (Failure.source name d.syntaxErrors).text
  else if d.runtimeErrors ≠ [] then (Failure.evaluation name d.runtimeErrors).text
  else ""

/-- In this world the task is about the source, which has the name in messages, and the settings are
those that the options of the task make of the ones in the world. -/
inductive World.Poses (w : World) : Task → Settings → String → String → Prop
  | text {s : Settings} (hs : (loadSettings World.host w).1 = .ok s) (o : Options)
    (source : String) :
    w.Poses (.evaluateText source o) (o.apply s) argumentName source
  | file {s : Settings} (hs : (loadSettings World.host w).1 = .ok s) (o : Options)
    {path source : String} {bytes : List UInt8} (hentry : w.entry path = .file bytes)
    (hbytes : textOfBytes? bytes = some source) :
    w.Poses (.evaluateFile path o) (o.apply s) path source

/-! ## Programs step by step -/

section
variable {s : Settings} {source : String} {r : Run} {d : Diagnostics} {report : Report}

theorem IsTrace.append {text text' : String} (h : IsTrace s text) (h' : IsTrace s text') :
    IsTrace s (text ++ text') := by
  intro hs
  rw [h hs, h' hs]
  rfl

theorem isTrace_traceText (s : Settings) (text : String) : IsTrace s (traceText s text) := by
  intro hs
  rw [traceText, hs]
  rfl

theorem trace_run (s : Settings) (text : String) (w : World) :
    trace World.host s text w = (.ok (), w.showing "" (traceText s text)) := by
  unfold trace traceText
  cases hs : s.debug with
  | true =>
    simp only [World.showing, String.append_empty]
    rfl
  | false =>
    simp only [World.showing, Bool.false_eq_true, if_false, String.append_empty]
    rfl

theorem configPath_run (w : World) : ∃ path, configPath World.host w = (.ok path, w) := by
  rw [configPath, bind_of_ok (valueOf?_run _ w)]
  cases w.environment.lookup "LOX_CONFIG" with
  | some path => exact ⟨path, rfl⟩
  | none => exact ⟨_, rfl⟩

theorem write_run (text : String) (w : World) :
    (liftM (World.host.write text) : ExceptT Failure World.Program Unit) w =
      (.ok (), w.showing text "") := by
  simp only [World.showing, String.append_empty]
  rfl

theorem evaluate_run (h : s.Shows source r d report) (json : Bool) (w : World) :
    evaluate World.host s json source w = (.ok d,
      w.showing (report.shown s json) (traceText s (countsText r.tokens.length d))) := by
  rw [evaluate, h.display_eq json]
  dsimp only
  rw [bind_of_ok (trace_run s _ w), bind_of_ok (write_run _ _), World.showing_showing,
    String.empty_append, String.append_empty]
  rfl

theorem exists_evaluateText_run (h : s.Shows source r d report) (name : String) :
    ∃ traced, IsTrace s traced ∧ ∀ json w, evaluateText World.host s json name source w =
      (check name d, w.showing (report.shown s json) traced) := by
  refine ⟨_, isTrace_traceText s (countsText r.tokens.length d), fun json w => ?_⟩
  rw [evaluateText, bind_of_ok (evaluate_run h json w)]
  rfl

theorem exists_evaluateFile_run (h : s.Shows source r d report) {path : String}
    {bytes : List UInt8} (hbytes : textOfBytes? bytes = some source) :
    ∃ traced, IsTrace s traced ∧ ∀ json w, w.entry path = .file bytes →
      evaluateFile World.host s json path w =
        (check path d, w.showing (report.shown s json) traced) := by
  let traced := traceText s ("reading " ++ path)
  obtain ⟨traced', htraced', hrun'⟩ := exists_evaluateText_run h path
  refine ⟨traced ++ traced', (isTrace_traceText s _).append htraced', fun json w hentry => ?_⟩
  have hread : (liftM (World.host.entry path) : ExceptT Failure World.Program Entry)
      (w.showing "" traced) = (.ok (.file bytes), w.showing "" traced) :=
    congrArg (fun entry => (Except.ok entry, w.showing "" traced)) hentry
  rw [evaluateFile, bind_of_ok (trace_run s _ w), bind_of_ok hread]
  dsimp only
  rw [hbytes]
  dsimp only
  rw [hrun', World.showing_showing, String.empty_append]

theorem exists_dispatch_run {w : World} (hs : (loadSettings World.host w).1 = .ok s) :
    ∃ path, ∀ task, dispatch World.host (.task task) w =
      perform World.host s path task (w.showing "" (traceText s ("config path: " ++ path))) := by
  obtain ⟨path, hpath⟩ := configPath_run w
  refine ⟨path, fun task => ?_⟩
  have hload : loadSettings World.host w = (.ok s, w) := hs ▸ loadSettings_reads.run_eq w
  rw [dispatch, bind_of_ok hload, bind_of_ok hpath, bind_of_ok (trace_run s _ w)]

/-! ## The whole command -/

/-- A task on a source ends with the verdict on its errors. The options of a task leave it to the
settings whether there are traces. -/
theorem World.Poses.exists_dispatch_run {w : World} {task : Task} {name : String}
    (hw : w.Poses task s name source) (h : s.Shows source r d report) :
    ∃ traced, IsTrace s traced ∧ ∀ json, dispatch World.host (.task (task.inMode json)) w =
      (check name d, w.showing (report.shown s json) traced) := by
  cases hw with
  | @text s hs o source =>
    obtain ⟨path, hrun⟩ := Command.exists_dispatch_run hs
    obtain ⟨traced', htraced', hrun'⟩ := exists_evaluateText_run h argumentName
    let traced := traceText s ("config path: " ++ path)
    have htraced : IsTrace s traced := isTrace_traceText s _
    refine ⟨traced ++ traced', IsTrace.append htraced htraced', fun json => ?_⟩
    refine (hrun _).trans ((hrun' json _).trans ?_)
    rw [World.showing_showing, String.empty_append]
  | @file s hs o _ _ _ hentry hbytes =>
    obtain ⟨path, hrun⟩ := Command.exists_dispatch_run hs
    obtain ⟨traced', htraced', hrun'⟩ := exists_evaluateFile_run h hbytes
    let traced := traceText s ("config path: " ++ path)
    have htraced : IsTrace s traced := isTrace_traceText s _
    refine ⟨traced ++ traced', IsTrace.append htraced htraced', fun json => ?_⟩
    refine (hrun _).trans ((hrun' json (w.showing "" traced) hentry).trans ?_)
    rw [World.showing_showing, String.empty_append]

theorem execute_of_check {args : List String} {asked : Invocation} {w w' : World} {name : String}
    (hargs : Arguments.parse args = some asked)
    (h : dispatch World.host asked w = (check name d, w')) :
    execute World.host args w = (if d.syntaxErrors = [] ∧ d.runtimeErrors = [] then 0 else 1,
      w'.showing "" (complaint name d)) := by
  by_cases hsyn : d.syntaxErrors = []
  · by_cases hruntime : d.runtimeErrors = []
    · have hcheck : check name d = .ok () := by
        simp [check, Diagnostics.hasSyntaxErrors, Diagnostics.hasRuntimeErrors, hsyn, hruntime]
      rw [execute_of_ok hargs (h.trans (by rw [hcheck]))]
      simp [complaint, hsyn, hruntime, World.showing]
    · have hcheck : check name d = .error (.evaluation name d.runtimeErrors) := by
        simp [check, Diagnostics.hasSyntaxErrors, Diagnostics.hasRuntimeErrors, hsyn, hruntime]
      rw [execute_of_error hargs (h.trans (by rw [hcheck]))]
      simp [complaint, hsyn, hruntime, World.showing]
  · have hcheck : check name d = .error (.source name d.syntaxErrors) := by
      simp [check, Diagnostics.hasSyntaxErrors, hsyn]
    rw [execute_of_error hargs (h.trans (by rw [hcheck]))]
    simp [complaint, hsyn, World.showing]

end

end Lox.Command
