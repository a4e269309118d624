import Lox.Proofs.Run.Outcome

/-!
What a report tells: all errors on record in their order, and, unless there are syntax errors among
them, what the run has produced. The run of a source always has a report, and the record is empty
behind it (`RunOutcome.exists_tells`).
-/

namespace Lox

/-- What a report tells of a run, with the errors on record. -/
structure Report.Tells (r : Run) (d : Diagnostics) (report : Report) : Prop where
  syntaxErrors_eq : report.syntaxErrors = d.syntaxErrors.map SyntaxError.text
  runtimeErrors_eq : report.runtimeErrors = d.runtimeErrors.map RuntimeError.text
  shown : d.syntaxErrors = [] → report.tokens = some r.tokens ∧
    r.expr.mapM Expr.prefixForm = .ok report.ast ∧ report.value = r.value
  hidden : d.syntaxErrors ≠ [] → report.tokens = none ∧ report.ast = none ∧ report.value = none

theorem Report.tells_of_ofRun {r : Run} {d d' : Diagnostics} {report : Report}
    (h : Report.ofRun r d = .ok (report, d')) : report.Tells r d ∧ d' = .empty := by
  have hempty : (d.syntaxErrors.map SyntaxError.text).isEmpty ↔ d.syntaxErrors = [] := by simp
  unfold Report.ofRun at h
  dsimp only [Diagnostics.drainSyntax, Diagnostics.drainRuntime] at h
  split at h
  · next hsyn =>
    cases hast : r.expr.mapM Expr.prefixForm with
    | error f =>
      rw [hast] at h
      cases h
    | ok ast =>
      rw [hast] at h
      cases h
      exact ⟨⟨rfl, rfl, fun _ => ⟨rfl, hast, rfl⟩, fun hne => absurd (hempty.mp hsyn) hne⟩, rfl⟩
  · next hsyn =>
    cases h
    exact ⟨⟨rfl, rfl, fun hnil => absurd (hempty.mpr hnil) hsyn, fun _ => ⟨rfl, rfl, rfl⟩⟩, rfl⟩

theorem RunOutcome.of_run {source : String} {limit : Nat} {d : Diagnostics} {r : Run × Diagnostics}
    (h : run source limit d = .ok r) : RunOutcome source limit d r := by
  obtain ⟨r', hrun, houtcome⟩ := run_outcome source limit d
  rw [h] at hrun
  cases hrun
  exact houtcome

theorem RunOutcome.exists_prefixForm {source : String} {limit : Nat} {d : Diagnostics}
    {r : Run × Diagnostics} (h : RunOutcome source limit d r) {e : Expr} (he : r.1.expr = some e) :
    ∃ text, e.prefixForm = .ok text :=
  Expr.exists_prefixForm (h.isTreeOf he).stratified (h.isTreeOf he).payloadsFit

/-- Whatever is on record, a run that has come from a source can be reported. -/
theorem RunOutcome.exists_tells {source : String} {limit : Nat} {before : Diagnostics}
    {r : Run × Diagnostics} (h : RunOutcome source limit before r) (d : Diagnostics) :
    ∃ report, Report.ofRun r.1 d = .ok (report, .empty) ∧ report.Tells r.1 d := by
  obtain ⟨⟨report, d'⟩, hreport⟩ := exists_report (fun e he => h.exists_prefixForm he) d
  obtain ⟨htells, rfl⟩ := Report.tells_of_ofRun hreport
  exact ⟨report, hreport, htells⟩

end Lox
