import Lox.Run.Basic

/-!
A record only grows. What the steps from a source to its value find does not depend on the errors
that stand before it, and it is put behind them: over a record with more errors in front, each step
does the same and leaves the same errors in front (`scan_append`, `parse_append`, `evaluate_append`,
`run_append`).
-/

namespace Lox

namespace Diagnostics

/-- The errors of one record, and behind them those of another. -/
def append (d found : Diagnostics) : Diagnostics :=
  ⟨d.syntaxErrors ++ found.syntaxErrors, d.runtimeErrors ++ found.runtimeErrors⟩

@[simp] theorem append_syntaxErrors (d found : Diagnostics) :
    (d.append found).syntaxErrors = d.syntaxErrors ++ found.syntaxErrors := rfl

@[simp] theorem append_runtimeErrors (d found : Diagnostics) :
    (d.append found).runtimeErrors = d.runtimeErrors ++ found.runtimeErrors := rfl

@[simp] theorem append_empty (d : Diagnostics) : d.append .empty = d := by
  simp [append, empty]

@[simp] theorem empty_append (found : Diagnostics) : append .empty found = found := by
  simp [append, empty]

theorem reportSyntax_append (d found : Diagnostics) (errors : List SyntaxError) :
    (d.append found).reportSyntax errors = d.append (found.reportSyntax errors) := by
  simp [append, reportSyntax]

theorem reportRuntime_append (d found : Diagnostics) (errors : List RuntimeError) :
    (d.append found).reportRuntime errors = d.append (found.reportRuntime errors) := by
  simp [append, reportRuntime]

/-! ## The steps of a run -/

theorem scan_append (d found : Diagnostics) (source : String) :
    (d.append found).scan source = Prod.map id d.append (found.scan source) := by
  simp only [scan, reportSyntax_append, Prod.map_apply, id]

theorem parse_append (d found : Diagnostics) (tokens : List Token) (limit : Nat) :
    (d.append found).parse tokens limit =
      (found.parse tokens limit).map (Prod.map id d.append) := by
  unfold parse
  cases Expr.read tokens limit .start with
  | error f => rfl
  | ok attempt =>
    simp only [bind, Except.bind, pure, Except.pure, Except.map, reportSyntax_append,
      Prod.map_apply, id]

theorem evaluate_append (d found : Diagnostics) (e : Expr) :
    (d.append found).evaluate e = (found.evaluate e).map (Prod.map id d.append) := by
  unfold evaluate
  match e.evaluate with
  | .ok v => rfl
  | .error (.error error) => simp only [Except.map, reportRuntime_append, Prod.map_apply, id]
  | .error (.fault f) => rfl

end Diagnostics

/-- A run tells whether it has found an error by the number of errors before and after, which the
errors in front raise alike. -/
theorem run_append (source : String) (limit : Nat) (d found : Diagnostics) :
    run source limit (d.append found) =
      (run source limit found).map (Prod.map id d.append) := by
  unfold run
  rw [d.scan_append]
  obtain ⟨tokens, scanned⟩ := found.scan source
  simp only [Prod.map_apply, id, d.parse_append]
  cases scanned.parse tokens limit with
  | error f => rfl
  | ok result =>
    obtain ⟨_ | e, parsed⟩ := result
    · rfl
    · simp only [Except.map, Prod.map_apply, id, bind, Except.bind,
        Diagnostics.append_syntaxErrors, List.length_append, Nat.add_left_cancel_iff,
        d.evaluate_append]
      by_cases h : parsed.syntaxErrors.length = found.syntaxErrors.length
      · simp only [if_pos h]
        cases parsed.evaluate e <;> rfl
      · simp only [if_neg h]
        rfl

/-- What a run does with a record of its own, it does behind any other errors. -/
theorem run_of_empty {source : String} {limit : Nat} {r : Run} {found : Diagnostics}
    (h : run source limit .empty = .ok (r, found)) (d : Diagnostics) :
    run source limit d = .ok (r, d.append found) := by
  have happend := run_append source limit d .empty
  rw [d.append_empty, h] at happend
  exact happend

end Lox
