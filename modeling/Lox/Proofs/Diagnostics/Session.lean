import Lox.Proofs.Diagnostics.Appending
import Lox.Proofs.Run.Report
import Mathlib.Data.List.DropRight

/-!
One record under any steps in any order. What is on record are the errors of each kind that have
been reported since it was last drained of them (`eq_reportedSince`). So a step does what it would
do with a record of its own, and a drain hands over each error once (`shared_record`).
-/

namespace Lox.Diagnostics

/-- What can be done with a record. -/
inductive Step
  | run (source : String) (limit : Nat)
  | scan (source : String)
  | parse (tokens : List Token) (limit : Nat)
  | evaluate (e : Expr)
  | reportSyntax (error : SyntaxError)
  | reportRuntime (error : RuntimeError)
  | drainSyntax
  | drainRuntime
  | report (r : Run)

/-- The record that a step leaves, if the step does not halt with a fault. -/
def after (d : Diagnostics) : Step → Option Diagnostics
  | .run source limit => (Lox.run source limit d).toOption.map Prod.snd
  | .scan source => some (d.scan source).2
  | .parse tokens limit => (d.parse tokens limit).toOption.map Prod.snd
  | .evaluate e => (d.evaluate e).toOption.map Prod.snd
  | .reportSyntax error => some (d.reportSyntax [error])
  | .reportRuntime error => some (d.reportRuntime [error])
  | .drainSyntax => some d.drainSyntax.2
  | .drainRuntime => some d.drainRuntime.2
  | .report r => (Report.ofRun r d).toOption.map Prod.snd

/-- The record that steps leave one after the other, the first of which finds it empty. -/
def afterAll (steps : List Step) : Option Diagnostics :=
  steps.foldlM after .empty

namespace Step

/-- What the step leaves on a record of its own. -/
def found (step : Step) : Diagnostics :=
  (empty.after step).getD .empty

def drainsSyntax : Step → Bool
  | drainSyntax | report _ => true
  | _ => false

def drainsRuntime : Step → Bool
  | drainRuntime | report _ => true
  | _ => false

end Step

/-- What steps have reported, each kind of error since its last drain. -/
def reportedSince (past : List Step) : Diagnostics where
  syntaxErrors := (past.rtakeWhile (!·.drainsSyntax)).flatMap (·.found.syntaxErrors)
  runtimeErrors := (past.rtakeWhile (!·.drainsRuntime)).flatMap (·.found.runtimeErrors)

/-! ## One step -/

theorem eq_append_of_map {α : Type} {d d' : Diagnostics} {x y : Except Fault (α × Diagnostics)}
    (h : x = y.map (Prod.map id d.append)) (hx : x.toOption.map Prod.snd = some d') :
    d' = d.append ((y.toOption.map Prod.snd).getD .empty) := by
  subst h
  cases y with
  | error f => cases hx
  | ok result => exact (Option.some.inj hx).symm

/-- A step empties what it drains, and puts what it finds behind the rest. -/
theorem eq_of_after {d d' : Diagnostics} {step : Step} (h : d.after step = some d') :
    d'.syntaxErrors =
        (if step.drainsSyntax then [] else d.syntaxErrors ++ step.found.syntaxErrors) ∧
      d'.runtimeErrors =
        if step.drainsRuntime then [] else d.runtimeErrors ++ step.found.runtimeErrors := by
  cases step with
  | run source limit =>
    have hrun := run_append source limit d .empty
    rw [append_empty] at hrun
    rw [eq_append_of_map hrun h]
    exact ⟨rfl, rfl⟩
  | parse tokens limit =>
    have hparse := d.parse_append .empty tokens limit
    rw [append_empty] at hparse
    rw [eq_append_of_map hparse h]
    exact ⟨rfl, rfl⟩
  | evaluate e =>
    have hevaluate := d.evaluate_append .empty e
    rw [append_empty] at hevaluate
    rw [eq_append_of_map hevaluate h]
    exact ⟨rfl, rfl⟩
  -- the other steps cannot fault but for a report
  | scan source =>
    cases h
    have hscan := d.scan_append .empty source
    rw [append_empty] at hscan
    rw [hscan]
    exact ⟨rfl, rfl⟩
  | reportSyntax error =>
    cases h
    exact ⟨rfl, (List.append_nil _).symm⟩
  | reportRuntime error =>
    cases h
    exact ⟨(List.append_nil _).symm, rfl⟩
  | drainSyntax =>
    cases h
    exact ⟨rfl, (List.append_nil _).symm⟩
  | drainRuntime =>
    cases h
    exact ⟨(List.append_nil _).symm, rfl⟩
  | report r =>
    cases hreport : Report.ofRun r d with
    | error f =>
      rw [after, hreport] at h
      cases h
    | ok result =>
      rw [after, hreport] at h
      cases h
      rw [(Report.tells_of_ofRun hreport).2]
      exact ⟨rfl, rfl⟩

/-! ## Many steps -/

theorem exists_of_afterAll_concat {past : List Step} {step : Step} {d' : Diagnostics}
    (h : afterAll (past ++ [step]) = some d') :
    ∃ d, afterAll past = some d ∧ d.after step = some d' := by
  rw [afterAll, List.foldlM_append] at h
  obtain ⟨d, hpast, hstep⟩ := Option.bind_eq_some_iff.mp h
  rw [List.foldlM_cons] at hstep
  obtain ⟨d'', hstep, hlast⟩ := Option.bind_eq_some_iff.mp hstep
  cases hlast
  exact ⟨d, hpast, hstep⟩

theorem syntaxErrors_reportedSince_concat (past : List Step) (step : Step) :
    (reportedSince (past ++ [step])).syntaxErrors = if step.drainsSyntax then []
      else (reportedSince past).syntaxErrors ++ step.found.syntaxErrors := by
  simp only [reportedSince, List.rtakeWhile_concat]
  cases step.drainsSyntax <;> simp

theorem runtimeErrors_reportedSince_concat (past : List Step) (step : Step) :
    (reportedSince (past ++ [step])).runtimeErrors = if step.drainsRuntime then []
      else (reportedSince past).runtimeErrors ++ step.found.runtimeErrors := by
  simp only [reportedSince, List.rtakeWhile_concat]
  cases step.drainsRuntime <;> simp

/-- What is on record is what has been reported since the last drains. -/
theorem eq_reportedSince {past : List Step} {d : Diagnostics} (h : afterAll past = some d) :
    d = reportedSince past := by
  -- from the end, as the last step acts on the record of all steps before it
  induction past using List.reverseRecOn generalizing d with
  | nil =>
    cases h
    rfl
  | append_singleton past step ih =>
    obtain ⟨d, hpast, hstep⟩ := exists_of_afterAll_concat h
    obtain ⟨hsyn, hruntime⟩ := eq_of_after hstep
    rw [ih hpast, ← syntaxErrors_reportedSince_concat] at hsyn
    rw [ih hpast, ← runtimeErrors_reportedSince_concat] at hruntime
    exact congr (congrArg mk hsyn) hruntime

/-- A record that is shared by any steps neither influences what a step does nor loses an error. A
run, a scan, a reading and an evaluation do what they do with a record of their own, and what they
find is put behind what is there. A drain hands over what has been reported since the last one of
its kind, and leaves the other kind as it is; a report drains both. -/
theorem shared_record {past : List Step} {d : Diagnostics} (h : afterAll past = some d) :
    (∀ source limit, ∃ r found, run source limit .empty = .ok (r, found) ∧
      run source limit d = .ok (r, d.append found)) ∧
    (∀ source, ∃ tokens found, empty.scan source = (tokens, found) ∧
      d.scan source = (tokens, d.append found)) ∧
    (∀ tokens limit,
      d.parse tokens limit = (empty.parse tokens limit).map (Prod.map id d.append)) ∧
    (∀ e : Expr, d.evaluate e = (empty.evaluate e).map (Prod.map id d.append)) ∧
    d.drainSyntax = ((reportedSince past).syntaxErrors, ⟨[], d.runtimeErrors⟩) ∧
    d.drainRuntime = ((reportedSince past).runtimeErrors, ⟨d.syntaxErrors, []⟩) ∧
    (∀ r report behind, Report.ofRun r d = .ok (report, behind) →
      report.syntaxErrors = (reportedSince past).syntaxErrors.map SyntaxError.text ∧
        report.runtimeErrors = (reportedSince past).runtimeErrors.map RuntimeError.text ∧
        behind = .empty) ∧
    ∀ source limit before r behind, run source limit before = .ok (r, behind) →
      ∃ report, Report.ofRun r d = .ok (report, .empty) := by
  have hd := eq_reportedSince h
  refine ⟨fun source limit => ?_, fun source => ?_, fun tokens limit => ?_, fun e => ?_, ?_, ?_,
    fun r report behind hreport => ?_, fun source limit before r behind hrun => ?_⟩
  · obtain ⟨⟨r, found⟩, hrun, -⟩ := run_outcome source limit .empty
    refine ⟨r, found, hrun, ?_⟩
    have happend := run_append source limit d .empty
    rw [append_empty, hrun] at happend
    exact happend
  · refine ⟨_, _, rfl, ?_⟩
    have happend := d.scan_append .empty source
    rw [append_empty] at happend
    exact happend
  · rw [← d.parse_append, append_empty]
  · rw [← d.evaluate_append, append_empty]
  · rw [drainSyntax, ← hd]
  · rw [drainRuntime, ← hd]
  · obtain ⟨htells, hempty⟩ := Report.tells_of_ofRun hreport
    rw [← hd]
    exact ⟨htells.syntaxErrors_eq, htells.runtimeErrors_eq, hempty⟩
  · obtain ⟨report, hreport, -⟩ := (RunOutcome.of_run hrun).exists_tells d
    exact ⟨report, hreport⟩

/-- The stray character of the first run is drained, so that only the later one is left. -/
theorem shared_record_drained :
    let past : List Step := [.run "nil @" 2, .drainSyntax, .run "-nil" 2, .scan "@"]
    ∃ d, afterAll past = some d ∧
      d.drainSyntax = ([.lexical ⟨1, .invalidCharacter '@'⟩], ⟨[], d.runtimeErrors⟩) ∧
      d.drainRuntime = ([⟨1, "-", .operandNotNumber⟩], ⟨d.syntaxErrors, []⟩) := by
  intro past
  have hpast : afterAll past =
      some ⟨[.lexical ⟨1, .invalidCharacter '@'⟩], [⟨1, "-", .operandNotNumber⟩]⟩ := by
    decide +kernel
  have hsince : reportedSince past =
      ⟨[.lexical ⟨1, .invalidCharacter '@'⟩], [⟨1, "-", .operandNotNumber⟩]⟩ := by
    decide +kernel
  obtain ⟨-, -, -, -, hsyn, hruntime, -⟩ := shared_record hpast
  rw [hsince] at hsyn hruntime
  exact ⟨_, hpast, hsyn, hruntime⟩

end Lox.Diagnostics
