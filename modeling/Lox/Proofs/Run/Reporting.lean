import Lox.Proofs.Run.Display

/-!
Reports on one record after several runs. A run keeps the errors that it finds on the record apart
from its own, but its report does not: it lists the earlier ones in front, is no success if there
are any, and shows nothing of the run if there are syntax errors among them. So it describes the run
that it is built from exactly if the record was drained before (`describes_iff_drained`).
-/

namespace Lox

namespace Diagnostics

theorem eq_empty_iff {d : Diagnostics} :
    d = .empty ↔ d.syntaxErrors = [] ∧ d.runtimeErrors = [] := by
  cases d
  simp [empty]

theorem append_eq_empty_iff {d found : Diagnostics} :
    d.append found = .empty ↔ d = .empty ∧ found = .empty := by
  simp only [eq_empty_iff, append_syntaxErrors, append_runtimeErrors, List.append_eq_nil_iff]
  exact and_and_and_comm

end Diagnostics

namespace Report

variable {report : Report} {r : Run} {d added : Diagnostics}

/-- The report describes a run that has added these errors: it is a success if the run has a value,
lists what the run has added and nothing else, and shows what the run has produced unless the run
has added syntax errors. -/
structure Describes (report : Report) (r : Run) (added : Diagnostics) : Prop where
  isSuccess_iff : report.isSuccess ↔ r.value.isSome
  tells : report.Tells r added

/-- What a report tells determines how many errors the record had. -/
theorem Tells.length_eq (h : report.Tells r d) (h' : report.Tells r added) :
    d.syntaxErrors.length = added.syntaxErrors.length ∧
      d.runtimeErrors.length = added.runtimeErrors.length := by
  have hsyn := congrArg List.length (h.syntaxErrors_eq.symm.trans h'.syntaxErrors_eq)
  have hruntime := congrArg List.length (h.runtimeErrors_eq.symm.trans h'.runtimeErrors_eq)
  rw [List.length_map, List.length_map] at hsyn hruntime
  exact ⟨hsyn, hruntime⟩

/-- Errors in front of those that are told have no place in the report. -/
theorem Tells.eq_empty (h : report.Tells r (d.append added)) (h' : report.Tells r added) :
    d = .empty := by
  obtain ⟨hsyn, hruntime⟩ := h.length_eq h'
  rw [Diagnostics.append_syntaxErrors, List.length_append, Nat.add_eq_right] at hsyn
  rw [Diagnostics.append_runtimeErrors, List.length_append, Nat.add_eq_right] at hruntime
  exact Diagnostics.eq_empty_iff.mpr
    ⟨List.eq_nil_of_length_eq_zero hsyn, List.eq_nil_of_length_eq_zero hruntime⟩

end Report

/-- A run and the report on it, on a record that may hold errors of earlier runs. The run is the
same as on a record of its own. The report tells it together with all errors on record, so it is a
success only if the run has a value and the record was drained before, and it describes the run
exactly if the record was. -/
theorem describes_iff_drained (source : String) (limit : Nat) (d : Diagnostics) :
    ∃ r added report, run source limit .empty = .ok (r, added) ∧
      run source limit d = .ok (r, d.append added) ∧
      Report.ofRun r (d.append added) = .ok (report, .empty) ∧
      report.Tells r (d.append added) ∧
      (report.isSuccess ↔ r.value.isSome ∧ d = .empty) ∧
      (report.tokens.isSome ↔ d.syntaxErrors = [] ∧ added.syntaxErrors = []) ∧
      (report.Describes r added ↔ d = .empty) := by
  obtain ⟨⟨r, behind⟩, hrun, houtcome⟩ := run_outcome source limit .empty
  obtain ⟨added, ending, -, hbehind, hholds, -, -⟩ := houtcome.exists_ending
  obtain rfl : behind = added := hbehind.trans (Diagnostics.empty_append added)
  obtain ⟨report, hreport, htells⟩ := houtcome.exists_tells (d.append behind)
  have hvalue : r.value.isSome ↔ behind = .empty :=
    hholds.isSome_value.trans Diagnostics.eq_empty_iff.symm
  have hsuccess : report.isSuccess ↔ r.value.isSome ∧ d = .empty := by
    rw [htells.isSuccess_iff, ← Diagnostics.eq_empty_iff, Diagnostics.append_eq_empty_iff, hvalue,
      and_comm]
  refine ⟨r, behind, report, hrun, run_of_empty hrun d, hreport, htells, hsuccess, ?_, ?_⟩
  · rw [htells.isSome_tokens, Diagnostics.append_syntaxErrors, List.append_eq_nil_iff]
  · refine ⟨fun hdescribes => htells.eq_empty hdescribes.tells, ?_⟩
    rintro rfl
    rw [Diagnostics.empty_append] at htells
    exact ⟨by simpa using hsuccess, htells⟩

/-- The report on the second of two runs. The run has a value and adds no error, but the errors of
the first one make the report no success and hide the value. -/
theorem report_behind_refused_run :
    ∃ before r report, (run "@" 1 .empty).toOption.map Prod.snd = some before ∧
      run "true" 1 before = .ok (r, before) ∧ r.value.isSome ∧
      Report.ofRun r before = .ok (report, .empty) ∧
      ¬ report.isSuccess ∧ report.tokens = none ∧ report.value = none ∧
      ¬ report.Describes r .empty := by
  let before : Diagnostics :=
    ⟨[.lexical ⟨1, .invalidCharacter '@'⟩, .parse ⟨1, .atEnd, .expectExpression⟩], []⟩
  have hfirst : (run "@" 1 .empty).toOption.map Prod.snd = some before := by decide +kernel
  have hsecond : (run "true" 1 before).toOption.map (fun a => (a.1.value.isSome, a.2)) =
      some (true, before) := by
    decide +kernel
  obtain ⟨⟨r, behind⟩, hrun, houtcome⟩ := run_outcome "true" 1 before
  rw [hrun] at hsecond
  obtain ⟨hvalue, rfl⟩ : r.value.isSome = true ∧ behind = before :=
    Prod.mk.inj (Option.some.inj hsecond)
  obtain ⟨report, hreport, htells⟩ := houtcome.exists_tells before
  have hfailure : ¬ report.isSuccess := by simp [htells.isSuccess_iff, before]
  obtain ⟨htokens, -, hnone⟩ := htells.hidden (List.cons_ne_nil _ _)
  refine ⟨before, r, report, hfirst, hrun, hvalue, hreport, hfailure, htokens, hnone, ?_⟩
  exact fun hdescribes => hfailure (hdescribes.isSuccess_iff.mpr hvalue)

end Lox
