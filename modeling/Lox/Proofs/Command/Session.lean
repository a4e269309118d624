import Lox.Proofs.Command.Lines
import Lox.Proofs.Command.Verdict
import Mathlib.Tactic.Choose

/-!
A session at the prompt. Each line is evaluated as it would be by itself, whatever the lines before
it have come to, and no line ends the session (`session_concatenates`).
-/

namespace Lox.Command

/-- What a session says of the errors of a line: those before evaluation one a line, or else the
runtime error. -/
def notice (d : Diagnostics) : String :=
  match d.syntaxErrors, d.runtimeErrors with
  | [], [] => ""
  | [], error :: _ => error.text ++ "\n"
  | errors, _ => "\n".intercalate (errors.map SyntaxError.text) ++ "\n"

/-- What a session writes to the error output for a line: what it says of the errors, behind a trace
if the settings ask for one. -/
def remarks (s : Settings) (shown : Display) : String :=
  traceText s (countsText shown.tokenCount shown.diagnostics) ++ notice shown.diagnostics

/-! ## One line -/

section
variable {s : Settings} {line : String} {r : Run} {d : Diagnostics} {report : Report}

theorem writeError_run (text : String) (w : World) :
    (liftM (World.host.writeError text) : ExceptT Failure World.Program Unit) w =
      (.ok (), w.showing "" text) := by
  simp only [World.showing, String.append_empty]
  rfl

theorem Settings.Shows.exists_holds (h : s.Shows line r d report) :
    ∃ ending : Ending, ending.Holds r d := by
  obtain ⟨added, ending, -, hd, hholds, -⟩ := (RunOutcome.of_run h.run_eq).exists_ending
  have hadded : d = added := hd.trans (Diagnostics.empty_append added)
  exact ⟨ending, hadded ▸ hholds⟩

theorem notice_of_value (h : s.Shows line r d report) (hvalue : r.value.isSome) :
    notice d = "" := by
  obtain ⟨ending, hholds⟩ := Settings.Shows.exists_holds h
  obtain ⟨hsyn, hruntime⟩ := hholds.isSome_value.mp hvalue
  rw [notice, hsyn, hruntime]

/-- The errors of a line are of one kind, so one of the two texts is left out. -/
theorem evaluateLine_run (h : s.Shows line r d report) (json : Bool) (w : World) :
    evaluateLine World.host s json (some line) w = (.ok (), w.showing (report.shown s json)
      (traceText s (countsText r.tokens.length d) ++ notice d)) := by
  have hevaluate := evaluate_run h json w
  obtain ⟨ending, hholds⟩ := Settings.Shows.exists_holds h
  rw [evaluateLine, bind_of_ok hevaluate]
  -- the ending of the run decides which errors there are to look for
  cases ending with
  | refused =>
    obtain ⟨hsyn, hruntime, -⟩ := hholds
    obtain ⟨error, errors, herrors⟩ := List.exists_cons_of_ne_nil hsyn
    have hnotice : notice d = d.dumpSyntax ++ "\n" := by
      rw [notice, Diagnostics.dumpSyntax, Diagnostics.dump, herrors]
    simp only [Diagnostics.hasSyntaxErrors, Diagnostics.hasRuntimeErrors, herrors, hruntime,
      List.isEmpty_cons, List.isEmpty_nil, Bool.not_false, Bool.not_true, if_true]
    rw [bind_of_ok (writeError_run _ _), World.showing_showing, String.append_empty, hnotice]
    rfl
  | finished =>
    obtain ⟨hsyn, hruntime, -⟩ := hholds
    have hnotice : notice d = "" := by rw [notice, hsyn, hruntime]
    rw [hnotice, String.append_empty]
    simp only [Diagnostics.hasSyntaxErrors, Diagnostics.hasRuntimeErrors, hsyn, hruntime]
    rfl
  | stopped =>
    obtain ⟨hsyn, hlength, -⟩ := hholds
    obtain ⟨error, herror⟩ := List.length_eq_one_iff.mp hlength
    have hnotice : notice d = d.dumpRuntime ++ "\n" := by
      rw [notice, Diagnostics.dumpRuntime, Diagnostics.dump, hsyn, herror]
      simp
    simp only [Diagnostics.hasSyntaxErrors, Diagnostics.hasRuntimeErrors, hsyn, herror,
      List.isEmpty_cons, List.isEmpty_nil, Bool.not_false, Bool.not_true, if_true]
    rw [hnotice]
    exact (writeError_run _ _).trans (by rw [World.showing_showing, String.append_empty])

end

/-! ## All lines -/

/-- The induction is on the lines that are left; what has been written so far stays in front. -/
theorem forEachLine_run {before : ExceptT Failure World.Program Unit}
    {body : Option String → ExceptT Failure World.Program Unit} {ahead : String}
    {output errors : String → String}
    (hbefore : ∀ w, before w = (.ok (), w.showing ahead ""))
    (hbody : ∀ line w, body (some line) w = (.ok (), w.showing (output line) (errors line)))
    (lines : List String) (w : World) :
    World.forEachLine before body (lines.map bytesOfText) w = (.ok (), w.showing
      (String.join (lines.map fun line => ahead ++ output line) ++ ahead)
      (String.join (lines.map errors))) := by
  induction lines generalizing w with
  | nil =>
    rw [List.map_nil, World.forEachLine, hbefore]
    simp
  | cons line lines ih =>
    rw [List.map_cons, World.forEachLine, bind_of_ok (hbefore w), textOfBytes?_bytesOfText,
      bind_of_ok (hbody line _), ih, World.showing_showing, World.showing_showing]
    simp [String.append_assoc]

theorem prompt_run {s : Settings} {json : Bool} {shown : String → Display}
    (hshown : ∀ line w, evaluateLine World.host s json (some line) w =
      (.ok (), w.showing (shown line).output (remarks s (shown line))))
    {lines : List String} {w : World} (hinput : IsInput lines w.input) :
    prompt World.host s json w = (.ok (), w.showing
      (String.join (lines.map fun line => s.prompt ++ (shown line).output) ++ s.prompt ++ "\n")
      (String.join (lines.map fun line => remarks s (shown line)))) := by
  have hlines := forEachLine_run (write_run s.prompt) hshown lines w
  rw [← linesOf_of_isInput hinput] at hlines
  have hsession : (World.host.forEachLine (World.host.write s.prompt)
      (evaluateLine World.host s json) : ExceptT Failure World.Program Unit) w = _ := hlines
  rw [prompt, bind_of_ok hsession, write_run, World.showing_showing, String.append_empty]

/-- A session writes, for each line in turn, the prompt and what an evaluation of the line by itself
writes to the output, and in the end the prompt once more and a line break. To the error output it
writes what it has to say of the errors of each line, and traces if the settings ask for them. It
goes through all lines, and its status is 0. -/
theorem session_concatenates {w : World} {s : Settings} {o : Options} {args lines : List String}
    (hs : (loadSettings World.host w).1 = .ok s)
    (hargs : Arguments.parse args = some (.task (.prompt o))) (hinput : IsInput lines w.input) :
    ∃ (path : String) (shown : String → Display),
      (∀ line, (o.apply s).display o.json line = .ok (shown line) ∧
        (∃ r, run line (o.apply s).maxDepth .empty = .ok (r, (shown line).diagnostics) ∧
          (r.value.isSome → notice (shown line).diagnostics = "")) ∧
        ∀ args', Arguments.parse args' = some (.task (.evaluateText line o)) →
          (execute World.host args' w).2.output = w.output ++ (shown line).output) ∧
      execute World.host args w = (0, w.showing
        (String.join (lines.map fun line => s.prompt ++ (shown line).output) ++ s.prompt ++ "\n")
        (traceText s ("config path: " ++ path) ++
          String.join (lines.map fun line => remarks s (shown line)))) := by
  obtain ⟨path, hdispatch⟩ := exists_dispatch_run hs
  -- what is shown for a line depends on no world, so it can be told before the session
  choose r d report h using exists_shows (o.apply s)
  let shown (line : String) : Display :=
    ⟨(report line).shown (o.apply s) o.json, d line, (r line).tokens.length⟩
  have hline : ∀ line w, evaluateLine World.host (o.apply s) o.json (some line) w =
      (.ok (), w.showing (shown line).output (remarks (o.apply s) (shown line))) :=
    fun line w => evaluateLine_run (h line) o.json w
  refine ⟨path, shown, fun line => ⟨(h line).display_eq o.json, ⟨r line, (h line).run_eq,
    notice_of_value (h line)⟩, fun args' hargs' => ?_⟩, ?_⟩
  · obtain ⟨traced, -, hrun⟩ := (World.Poses.text hs o line).exists_dispatch_run (h line)
    rw [execute_of_check hargs' (hrun o.json)]
    simp [World.showing, shown]
  · have hrun := (hdispatch (.prompt o)).trans (prompt_run hline hinput)
    rw [World.showing_showing, String.empty_append] at hrun
    exact execute_of_ok hargs hrun

/-- Three lines, the first of which is refused and the second stopped, with line ends of either kind
and none behind the last one. -/
theorem session_concatenates_nil_behind_errors :
    let lines := ["(", "-nil", "nil"]
    let input := bytesOfText "(" ++ 10 :: (bytesOfText "-nil" ++ 13 :: 10 :: bytesOfText "nil")
    let w : World := ⟨[("LOX_CONFIG", "")], ⟨[]⟩, input, "", ""⟩
    (loadSettings World.host w).1 = .ok .standard ∧
      Arguments.parse ["repl"] = some (.task (.prompt .none)) ∧ IsInput lines w.input ∧
      execute World.host ["repl"] w = (0, w.showing "> > > nil\n> \n"
        ("[line 1] Error at end: Expect expression.\n" ++
          "[line 1] Error at '-': Operand must be a number.\n")) := by
  intro lines input w
  have hs : (loadSettings World.host w).1 = .ok .standard := rfl
  have hargs : Arguments.parse ["repl"] = some (.task (.prompt .none)) := by decide
  have hinput : IsInput lines w.input :=
    .lineFeed (by decide) (by decide) (.carriageReturn (by decide)
      (.unended (by decide) (by decide)))
  refine ⟨hs, hargs, hinput, ?_⟩
  obtain ⟨path, shown, hshown, hrun⟩ := session_concatenates hs hargs hinput
  have hfound : ∀ line x, (Settings.standard.display false line).toOption = some x →
      shown line = x := by
    intro line x hx
    have hdisplay : Settings.standard.display false line = .ok (shown line) := (hshown line).1
    rw [hdisplay] at hx
    exact Option.some.inj hx
  have hrefused : shown "(" = ⟨"", ⟨[.parse ⟨1, .atEnd, .expectExpression⟩], []⟩, 2⟩ :=
    hfound _ _ (by decide +kernel)
  have hstopped : shown "-nil" = ⟨"", ⟨[], [⟨1, "-", .operandNotNumber⟩]⟩, 3⟩ :=
    hfound _ _ (by decide +kernel)
  have hnil : shown "nil" = ⟨"nil\n", ⟨[], []⟩, 2⟩ := hfound _ _ (by decide +kernel)
  rw [hrun]
  simp only [lines, List.map_cons, List.map_nil, hrefused, hstopped, hnil]
  rfl

end Lox.Command
