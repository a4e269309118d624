import Lox.Proofs.Diagnostics.Appending
import Lox.Proofs.Run.Outcome
import Lox.Proofs.Scanning.Tokens

/-!
Every run ends in one of three ways, which can be told from what it adds to the record and from what
it produces (`run_ends`): it is refused with syntax errors, it finishes with a value, or it stops at
one runtime error.
-/

namespace Lox

/-! ## The three endings -/

inductive Ending
  | refused
  | finished
  | stopped
deriving DecidableEq, Repr

/-- What a run that ends so has produced, and what it has added to the record. -/
def Ending.Holds (ending : Ending) (r : Run) (added : Diagnostics) : Prop :=
  match ending with
  | refused => added.syntaxErrors ≠ [] ∧ added.runtimeErrors = [] ∧ r.value = none
  | finished => added.syntaxErrors = [] ∧ added.runtimeErrors = [] ∧ r.expr.isSome ∧
    r.value.isSome
  | stopped => added.syntaxErrors = [] ∧ added.runtimeErrors.length = 1 ∧ r.expr.isSome ∧
    r.value = none

theorem Ending.Holds.unique {a b : Ending} {r : Run} {added : Diagnostics}
    (ha : a.Holds r added) (hb : b.Holds r added) : a = b := by
  cases a <;> cases b <;> simp_all [Holds]

theorem Ending.Holds.isSome_value {ending : Ending} {r : Run} {added : Diagnostics}
    (h : ending.Holds r added) :
    r.value.isSome ↔ added.syntaxErrors = [] ∧ added.runtimeErrors = [] := by
  cases ending with
  | refused => simp [h.1, h.2.2]
  | finished => simp [h.1, h.2.1, h.2.2.2]
  | stopped =>
    have hone : added.runtimeErrors ≠ [] := fun hnil => by simpa [hnil] using h.2.1
    simp [hone, h.2.2.2]

theorem Ending.Holds.isSome_expr {ending : Ending} {r : Run} {added : Diagnostics}
    (h : ending.Holds r added) (hadded : added.syntaxErrors = []) : r.expr.isSome := by
  cases ending with
  | refused => exact absurd hadded h.1
  | finished => exact h.2.2.1
  | stopped => exact h.2.2.1

/-! ## The errors that a run adds -/

/-- The lexical errors are those of the segments that are faults, in the order of the source. -/
theorem faults_scan {source : String} {ss : List Segment}
    (h : Segment.Munches source.toList ss) :
    List.Forall₂ Segment.Faults (ss.filter (·.shape.isFault)) (scan source).errors := by
  rw [scan_eq, ← h.eq_segments]
  exact Segment.forall₂_place 1 (fun line s after hs => hs.faults line)
    (fun line s => Segment.error?_eq_none_of_shape line) h

/-- The syntax errors of a source: the lexical ones, and behind them the error with which its tokens
are refused, if they are. -/
def syntaxErrorsOf (source : String) (refusal : Option ParseError) : List SyntaxError :=
  (scan source).errors.map .lexical ++ refusal.toList.map .parse

theorem RunOutcome.exists_ending {source : String} {limit : Nat} {d : Diagnostics}
    {result : Run × Diagnostics} (h : RunOutcome source limit d result) :
    ∃ added, ∃ ending : Ending, ∃ refusal, result.2 = d.append added ∧
      ending.Holds result.1 added ∧
      added.syntaxErrors = syntaxErrorsOf source refusal ∧
      (result.1.expr = none ↔ refusal ≠ none) := by
  -- the four outcomes make three endings: a run is refused by the scan or by the reading
  cases h with
  | value hlexical =>
    refine ⟨⟨[], []⟩, .finished, none, d.append_empty.symm, ⟨rfl, rfl, rfl, rfl⟩, ?_, by simp⟩
    simp [syntaxErrorsOf, hlexical]
  | @runtimeError e c error hlexical =>
    refine ⟨⟨[], [error]⟩, .stopped, none, ?_, ⟨rfl, rfl, rfl, rfl⟩, ?_, by simp⟩
    · simp [Diagnostics.reportRuntime, Diagnostics.append]
    · simp [syntaxErrorsOf, hlexical]
  | lexicalErrors hlexical =>
    refine ⟨⟨syntaxErrorsOf source none, []⟩, .refused, none, ?_, ⟨?_, rfl, rfl⟩, rfl, by simp⟩
    · simp [Diagnostics.reportSyntax, Diagnostics.append, syntaxErrorsOf]
    · simpa [syntaxErrorsOf] using hlexical
  | @parseError c error =>
    refine ⟨⟨syntaxErrorsOf source (some error), []⟩, .refused, some error, ?_, ⟨?_, rfl, rfl⟩, rfl,
      by simp⟩
    · simp [Diagnostics.reportSyntax, Diagnostics.append, syntaxErrorsOf]
    · simp [syntaxErrorsOf]

/-- A run always comes to an end, and to one of the three alone. It adds all lexical errors of the
source in their order, and behind them an error of the reading exactly if there is no tree. -/
theorem run_ends (source : String) (limit : Nat) (d : Diagnostics) :
    ∃ r added, run source limit d = .ok (r, d.append added) ∧
      (∃! ending : Ending, ending.Holds r added) ∧
      (∃ refusal, added.syntaxErrors = syntaxErrorsOf source refusal ∧
        (r.expr = none ↔ refusal ≠ none)) ∧
      ∀ ss, Segment.Munches source.toList ss →
        List.Forall₂ Segment.Faults (ss.filter (·.shape.isFault)) (scan source).errors := by
  obtain ⟨⟨r, behind⟩, hrun, houtcome⟩ := run_outcome source limit d
  obtain ⟨added, ending, refusal, rfl, hholds, herrors, hnone⟩ := houtcome.exists_ending
  exact ⟨r, added, hrun, ⟨ending, hholds, fun _ h => h.unique hholds⟩,
    ⟨refusal, herrors, hnone⟩, fun _ => faults_scan⟩

/-- A tree beside a lexical error, which is not evaluated. -/
example : (run "nil @" 1 .empty).toOption.map
    (fun (r, d) => (r.expr.isSome, r.value.isSome, d.syntaxErrors.map SyntaxError.text)) =
      some (true, false, ["[line 1] Error: Invalid character '@'."]) := by
  decide +kernel

end Lox
