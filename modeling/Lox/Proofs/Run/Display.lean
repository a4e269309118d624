import Lox.Proofs.Run.Ending
import Lox.Proofs.Run.Report
import Lox.Run.Display

/-!
What is shown of a source. The report and plain text come from one run and differ in form alone:
the lines of plain text are made from what the report holds (`exists_shows`).
-/

namespace Lox

/-- The lines of plain text for what a report holds. -/
def Report.lines (report : Report) (s : Settings) : List String :=
  let tokens := if s.printTokens then (report.tokens.getD []).map Token.dump else []
  let tree := if s.printAst then report.ast.toList else []
  tokens ++ tree ++ report.value.toList.map Value.text

/-- The text shown of a source for its report. -/
def Report.shown (report : Report) (s : Settings) (json : Bool) : String :=
  textOfLines (if json then [report.text] else report.lines s)

/-- What settings show of a source: it is told by the report on its run, with the errors of that
run. -/
structure Settings.Shows (s : Settings) (source : String) (r : Run) (d : Diagnostics)
    (report : Report) : Prop where
  run_eq : run source s.maxDepth .empty = .ok (r, d)
  ofRun_eq : Report.ofRun r d = .ok (report, .empty)
  tells : report.Tells r d
  isSome_tokens : report.tokens.isSome ↔ d.syntaxErrors = []
  isSome_ast : report.ast.isSome ↔ d.syntaxErrors = []
  isSome_value : report.value.isSome ↔ d.syntaxErrors = [] ∧ d.runtimeErrors = []
  isSuccess_iff : report.isSuccess ↔ r.value.isSome
  lines_eq_nil (hd : d.syntaxErrors ≠ []) : report.lines s = []
  display_eq (json : Bool) :
    s.display json source = .ok ⟨report.shown s json, d, r.tokens.length⟩

/-- One tree or none, and so its prefix form. -/
theorem Expr.prefixForms_of_mapM {expr : Option Expr} {ast : Option String}
    (h : expr.mapM Expr.prefixForm = .ok ast) :
    expr.isSome = ast.isSome ∧ expr.toList.mapM Expr.prefixForm = .ok ast.toList := by
  cases expr with
  | none =>
    cases h
    exact ⟨rfl, rfl⟩
  | some e =>
    rw [Option.mapM_some] at h
    cases htext : e.prefixForm with
    | error f =>
      rw [htext] at h
      cases h
    | ok text =>
      rw [htext] at h
      cases h
      rw [Option.toList_some, List.mapM_cons, htext]
      exact ⟨rfl, rfl⟩

namespace Report.Tells

variable {r : Run} {d : Diagnostics} {report : Report}

theorem isSuccess_iff (h : report.Tells r d) :
    report.isSuccess ↔ d.syntaxErrors = [] ∧ d.runtimeErrors = [] := by
  simp [isSuccess, h.syntaxErrors_eq, h.runtimeErrors_eq]

theorem isSome_tokens (h : report.Tells r d) : report.tokens.isSome ↔ d.syntaxErrors = [] := by
  by_cases hd : d.syntaxErrors = []
  · simp [hd, (h.shown hd).1]
  · simp [hd, (h.hidden hd).1]

theorem isSome_ast (h : report.Tells r d) (hexpr : d.syntaxErrors = [] → r.expr.isSome) :
    report.ast.isSome ↔ d.syntaxErrors = [] := by
  by_cases hd : d.syntaxErrors = []
  · simp [hd, ← (Expr.prefixForms_of_mapM (h.shown hd).2.1).1, hexpr hd]
  · simp [hd, (h.hidden hd).2.1]

theorem isSome_value (h : report.Tells r d)
    (hvalue : r.value.isSome ↔ d.syntaxErrors = [] ∧ d.runtimeErrors = []) :
    report.value.isSome ↔ d.syntaxErrors = [] ∧ d.runtimeErrors = [] := by
  by_cases hd : d.syntaxErrors = []
  · rw [(h.shown hd).2.2, hvalue]
  · simp [hd, (h.hidden hd).2.2]

theorem lines_eq_nil (h : report.Tells r d) (hd : d.syntaxErrors ≠ []) (s : Settings) :
    report.lines s = [] := by
  obtain ⟨htokens, hast, hvalue⟩ := h.hidden hd
  simp [lines, htokens, hast, hvalue]

theorem lines_eq (h : report.Tells r d) (hd : d.syntaxErrors = []) (s : Settings) :
    r.lines s = .ok (report.lines s) := by
  obtain ⟨htokens, hast, hvalue⟩ := h.shown hd
  have htree := (Expr.prefixForms_of_mapM hast).2
  cases hs : s.printAst with
  | true =>
    simp [Run.lines, lines, hs, htokens, htree, hvalue, bind, Except.bind, pure, Except.pure]
  | false =>
    simp [Run.lines, lines, hs, htokens, hvalue, bind, Except.bind, pure, Except.pure]

end Report.Tells

theorem Settings.display_eq {s : Settings} {source : String} {r : Run} {d : Diagnostics}
    {report : Report} (hrun : run source s.maxDepth .empty = .ok (r, d))
    (hofRun : Report.ofRun r d = .ok (report, .empty)) (htells : report.Tells r d) (json : Bool) :
    s.display json source = .ok ⟨report.shown s json, d, r.tokens.length⟩ := by
  cases json with
  | true => simp [display, hrun, hofRun, Report.shown, bind, Except.bind, pure, Except.pure]
  | false =>
    by_cases hd : d.syntaxErrors = []
    · simp [display, hrun, Diagnostics.hasSyntaxErrors, hd, htells.lines_eq hd, Report.shown, bind,
        Except.bind, pure, Except.pure]
    · simp [display, hrun, Diagnostics.hasSyntaxErrors, hd, htells.lines_eq_nil hd, Report.shown,
        bind, Except.bind, pure, Except.pure]

theorem exists_shows (s : Settings) (source : String) :
    ∃ r d report, s.Shows source r d report := by
  obtain ⟨⟨r, d⟩, hrun, houtcome⟩ := run_outcome source s.maxDepth .empty
  obtain ⟨report, hofRun, htells⟩ := houtcome.exists_tells d
  -- the record was empty before, so what is on it now is what the run has added
  obtain ⟨added, ending, -, hd, hholds, -, -⟩ := houtcome.exists_ending
  obtain rfl : d = added := hd.trans (Diagnostics.empty_append added)
  have hvalue : r.value.isSome ↔ d.syntaxErrors = [] ∧ d.runtimeErrors = [] :=
    hholds.isSome_value
  refine ⟨r, d, report, hrun, hofRun, htells, htells.isSome_tokens,
    htells.isSome_ast hholds.isSome_expr, htells.isSome_value hvalue,
    htells.isSuccess_iff.trans hvalue.symm, fun hd => htells.lines_eq_nil hd s, ?_⟩
  exact Settings.display_eq hrun hofRun htells

end Lox
