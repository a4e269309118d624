import Lox.Proofs.Reading.Renaming
import Lox.Proofs.Run.Outcome
import Lox.Proofs.Scanning.Layout

/-!
Layout means nothing. Two sources whose tokens differ in nothing but their lines are run alike
(`exists_run_sameButLines`), and so a source may be laid out anew, with any blanks, line breaks and
comments between its lexemes (`run_of_spaced`).
-/

namespace Lox

/-! ## Runs that differ in lines -/

def Run.unplaced (r : Run) : Run :=
  { r with tokens := r.tokens.map Token.unplaced, expr := r.expr.map Expr.unplaced }

/-- Both lists go on from the one that was held before, with the same errors on other lines. -/
def AppendAlike {α : Type} (unplaced : α → α) (held xs xs' : List α) : Prop :=
  ∃ added added', xs = held ++ added ∧ xs' = held ++ added' ∧
    added'.map unplaced = added.map unplaced

theorem AppendAlike.refl {α : Type} (unplaced : α → α) (held : List α) :
    AppendAlike unplaced held held held :=
  ⟨[], [], by simp, by simp, rfl⟩

theorem AppendAlike.single {α : Type} {unplaced : α → α} {x x' : α} (h : unplaced x' = unplaced x)
    (held : List α) : AppendAlike unplaced held (held ++ [x]) (held ++ [x']) :=
  ⟨[x], [x'], rfl, rfl, congrArg (fun y => [y]) h⟩

/-- What two runs over the record `d` produce and add to it differs in nothing but lines. -/
structure SameButLines (d : Diagnostics) (a a' : Run × Diagnostics) : Prop where
  run_eq : a'.1.unplaced = a.1.unplaced
  syntaxErrors : AppendAlike SyntaxError.unplaced d.syntaxErrors a.2.syntaxErrors a'.2.syntaxErrors
  runtimeErrors :
    AppendAlike RuntimeError.unplaced d.runtimeErrors a.2.runtimeErrors a'.2.runtimeErrors

theorem SameButLines.prefixForm_eq {d : Diagnostics} {a a' : Run × Diagnostics}
    (h : SameButLines d a a') :
    a'.1.expr.map Expr.prefixForm = a.1.expr.map Expr.prefixForm := by
  have hexpr : a'.1.expr.map Expr.unplaced = a.1.expr.map Expr.unplaced :=
    congrArg Run.expr h.run_eq
  have hform : Expr.prefixForm ∘ Expr.unplaced = Expr.prefixForm :=
    funext Expr.prefixForm_unplaced
  rw [← hform, ← Option.map_map, hexpr, Option.map_map]

section
variable {source source' : String} (herrors : (scan source).errors = [])
  (herrors' : (scan source').errors = [])
  (htokens : (scan source').tokens.map Token.unplaced = (scan source).tokens.map Token.unplaced)
  (limit : Nat) (d : Diagnostics)
include herrors herrors' htokens

theorem exists_run_sameButLines :
    ∃ a a', run source limit d = .ok a ∧ run source' limit d = .ok a' ∧ SameButLines d a a' := by
  obtain ⟨a, hrun, houtcome⟩ := run_outcome source limit d
  suffices h : ∃ a', RunOutcome source' limit d a' ∧ SameButLines d a a' by
    obtain ⟨a', houtcome', hsame⟩ := h
    exact ⟨a, a', hrun, houtcome'.run_eq, hsame⟩
  cases houtcome with
  | value hlexical hread hvalue =>
    obtain ⟨e', hread', he⟩ := Expr.read_tree_of_unplaced_eq htokens hread
    refine ⟨_, .value herrors' hread' (Expr.evaluate_ok_of_unplaced_eq he hvalue), ?_, .refl _ _,
      .refl _ _⟩
    simp only [Run.unplaced, htokens, Option.map_some, he]
  | runtimeError hlexical hread herror =>
    obtain ⟨e', hread', he⟩ := Expr.read_tree_of_unplaced_eq htokens hread
    obtain ⟨error', herror', hunplaced⟩ := Expr.evaluate_error_of_unplaced_eq he herror
    refine ⟨_, .runtimeError herrors' hread' herror', ?_, .refl _ _, .single hunplaced _⟩
    simp only [Run.unplaced, htokens, Option.map_some, he]
  | lexicalErrors hlexical hread => exact absurd herrors hlexical
  | parseError hread =>
    obtain ⟨error', hread', herror⟩ := Expr.read_error_of_unplaced_eq htokens hread
    refine ⟨_, .parseError hread', ?_, ?_, .refl _ _⟩
    · simp only [Run.unplaced, htokens, Option.map_none]
    · rw [herrors, herrors']
      exact .single (congrArg SyntaxError.parse herror) _

end

/-! ## Other layout -/

open Segment (Layout Spaced)

/-- A source without lexical errors may be laid out anew: its lexemes, with other layout before,
between and behind them, are the same tokens, and they are run alike. -/
theorem run_of_spaced {source source' : String} {lead tail : List Char}
    (herrors : (scan source).errors = []) (hlead : Layout lead)
    (htail : Spaced ((scan source).tokens.dropLast.map (·.lexeme.toList)) tail)
    (hsource : source'.toList = lead ++ tail) :
    (scan source').errors = [] ∧
    (scan source').tokens.map Token.unplaced = (scan source).tokens.map Token.unplaced ∧
    ∀ limit d, ∃ a a', run source limit d = .ok a ∧ run source' limit d = .ok a' ∧
      SameButLines d a a' ∧ a'.1.expr.map Expr.prefixForm = a.1.expr.map Expr.prefixForm := by
  have hsolid := solid_eq_of_spaced herrors hlead htail
  rw [← hsource] at hsolid
  have herrors' : (scan source').errors = [] := by
    rw [scan_errors_eq_nil_iff, hsolid]
    exact (scan_errors_eq_nil_iff source).mp herrors
  have htokens : (scan source').tokens.map Token.unplaced =
      (scan source).tokens.map Token.unplaced := by
    rw [map_unplaced_tokens, hsolid, map_unplaced_tokens]
  refine ⟨herrors', htokens, fun limit d => ?_⟩
  obtain ⟨a, a', hrun, hrun', hsame⟩ := exists_run_sameButLines herrors herrors' htokens limit d
  exact ⟨a, a', hrun, hrun', hsame, hsame.prefixForm_eq⟩

/-- `-nil` fails on the line of its minus, which is the third one if line breaks come before it. -/
theorem run_of_spaced_negation :
    let source' := "\n\n- //no\n\tnil "
    let gap := [' ', '/', '/', 'n', 'o', '\n', '\t']
    let tail := ['-'] ++ (gap ++ (['n', 'i', 'l'] ++ [' ']))
    (scan "-nil").errors = [] ∧ Layout ['\n', '\n'] ∧
      Spaced ((scan "-nil").tokens.dropLast.map (·.lexeme.toList)) tail ∧
      source'.toList = ['\n', '\n'] ++ tail ∧ (scan source').errors = [] ∧
      (scan source').tokens.map Token.unplaced = (scan "-nil").tokens.map Token.unplaced ∧
      ∃ a a', run "-nil" 2 .empty = .ok a ∧ run source' 2 .empty = .ok a' ∧
        SameButLines .empty a a' ∧ a'.1.expr.map Expr.prefixForm = a.1.expr.map Expr.prefixForm ∧
        a.2.runtimeErrors = [⟨1, "-", .operandNotNumber⟩] ∧
        a'.2.runtimeErrors = [⟨3, "-", .operandNotNumber⟩] := by
  intro source' gap tail
  have hlexemes : (scan "-nil").tokens.dropLast.map (·.lexeme.toList) =
      [['-'], ['n', 'i', 'l']] := by decide +kernel
  have herrors : (scan "-nil").errors = [] := by decide +kernel
  have hlead : Layout ['\n', '\n'] := .blank rfl (.blank rfl .nil)
  have hgap : Layout gap := .blank rfl (@Layout.comment ['n', 'o'] _ (by decide) (.blank rfl .nil))
  have htail : Spaced ((scan "-nil").tokens.dropLast.map (·.lexeme.toList)) tail := by
    rw [hlexemes]
    refine .cons ['-'] hgap (fun c hc => ?_) (List.cons_ne_nil _ _)
      (.last _ (.blank rfl .nil) (fun c hc => ?_)) <;> cases hc <;> rfl
  have hsource : source'.toList = ['\n', '\n'] ++ tail := by decide +kernel
  obtain ⟨herrors', htokens, hrun⟩ := run_of_spaced herrors hlead htail hsource
  obtain ⟨a, a', ha, ha', hsame, hform⟩ := hrun 2 .empty
  have hfound : (run "-nil" 2 .empty).toOption.map (·.2.runtimeErrors) =
      some [⟨1, "-", .operandNotNumber⟩] := by decide +kernel
  have hfound' : (run source' 2 .empty).toOption.map (·.2.runtimeErrors) =
      some [⟨3, "-", .operandNotNumber⟩] := by decide +kernel
  rw [ha] at hfound
  rw [ha'] at hfound'
  exact ⟨herrors, hlead, htail, hsource, herrors', htokens, a, a', ha, ha', hsame, hform,
    Option.some.inj hfound, Option.some.inj hfound'⟩

end Lox
