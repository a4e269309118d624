import Lox.Proofs.Expr.Typing
import Lox.Proofs.Reading.Verdict
import Lox.Proofs.Scanning.Bounds
import Lox.Proofs.Scanning.Stream
import Lox.Run.Report

/-!
How a run ends: with a value, with one runtime error, with lexical errors alone, or with a parse
error (`run_outcome`). No source leads to a fault, and none of the steps from its text to the report
on its run has one of its own (`pipeline_faultless`): what the scan puts into tokens and what the
reading puts into trees is what evaluation and prefix form ask for.
-/

namespace Lox

/-! ## The tree of a source -/

/-- The tree is one of the grammar, and it is spelled by the tokens of the source. -/
structure Expr.IsTreeOf (e : Expr) (source : String) : Prop where
  tokens_eq : ∃ body last, (scan source).tokens = body ++ [Token.endMarker last] ∧
    (∀ t ∈ body, t.kind ≠ .endOfInput) ∧ e.Spells body
  stratified : e.IsStratified
  payloadsFit : e.PayloadsFit

/-- A source has a tree, or its tokens are refused with an error. -/
theorem read_scan (source : String) (limit : Nat) :
    (∃ e c, Expr.read (scan source).tokens limit .start = .ok ⟨some e, none, c⟩ ∧
      e.IsTreeOf source) ∨
    ∃ error c, Expr.read (scan source).tokens limit .start = .ok ⟨none, some error, c⟩ := by
  obtain ⟨body, last, htokens, hbody⟩ := scan_stream source
  have hends : ∀ t ∈ body, t.kind ≠ .endOfInput := fun t ht => (hbody t ht).1
  rcases @Reading.read_outcome body (Token.endMarker last) hends rfl limit with
    ⟨e, hread, hspells, hs, -⟩ | ⟨t, cause, c, hread, -⟩
  · left
    refine ⟨e, _, by rw [htokens]; exact hread, ⟨body, last, htokens, hends, hspells⟩, hs, ?_⟩
    exact hspells.payloadsFit fun t ht => (hbody t ht).2
  · exact .inr ⟨_, c, by rw [htokens]; exact hread⟩

namespace Diagnostics

theorem reportSyntax_reportSyntax (d : Diagnostics) (xs ys : List SyntaxError) :
    (d.reportSyntax xs).reportSyntax ys = d.reportSyntax (xs ++ ys) := by
  simp [reportSyntax]

theorem isTreeOf_of_parse {source : String} {limit : Nat} {e : Expr} {d d' : Diagnostics}
    (h : d.parse (Lox.scan source).tokens limit = .ok (some e, d')) : e.IsTreeOf source := by
  rcases read_scan source limit with ⟨e', c, hread, he⟩ | ⟨error, c, hread⟩
  · rw [parse_of_read hread] at h
    cases h
    exact he
  · rw [parse_of_refused hread] at h
    cases h

end Diagnostics

/-! ## The four ends of a run -/

/-- What a run produces, and the record behind it. A tree is kept beside lexical errors, but it is
evaluated only if there are none. -/
inductive RunOutcome (source : String) (limit : Nat) (d : Diagnostics) : Run × Diagnostics → Prop
  | value {e : Expr} {c : Cursor} {v : Value} (hlexical : (scan source).errors = [])
    (hread : Expr.read (scan source).tokens limit .start = .ok ⟨some e, none, c⟩)
    (hvalue : e.evaluate = .ok v) :
    RunOutcome source limit d (⟨(scan source).tokens, some e, some v⟩, d)
  | runtimeError {e : Expr} {c : Cursor} {error : RuntimeError}
    (hlexical : (scan source).errors = [])
    (hread : Expr.read (scan source).tokens limit .start = .ok ⟨some e, none, c⟩)
    (herror : e.evaluate = .error (.error error)) :
    RunOutcome source limit d (⟨(scan source).tokens, some e, none⟩, d.reportRuntime [error])
  | lexicalErrors {e : Expr} {c : Cursor} (hlexical : (scan source).errors ≠ [])
    (hread : Expr.read (scan source).tokens limit .start = .ok ⟨some e, none, c⟩) :
    RunOutcome source limit d (⟨(scan source).tokens, some e, none⟩,
      d.reportSyntax ((scan source).errors.map .lexical))
  | parseError {c : Cursor} {error : ParseError}
    (hread : Expr.read (scan source).tokens limit .start = .ok ⟨none, some error, c⟩) :
    RunOutcome source limit d (⟨(scan source).tokens, none, none⟩,
      d.reportSyntax ((scan source).errors.map .lexical ++ [.parse error]))

theorem RunOutcome.run_eq {source : String} {limit : Nat} {d : Diagnostics} {r : Run × Diagnostics}
    (h : RunOutcome source limit d r) : run source limit d = .ok r := by
  have hscan : d.scan source =
      ((scan source).tokens, d.reportSyntax ((scan source).errors.map .lexical)) := rfl
  cases h with
  | value hlexical hread hvalue =>
    rw [hlexical, List.map_nil, d.reportSyntax_nil] at hscan
    simp [run, hscan, Diagnostics.parse_of_read hread, Diagnostics.evaluate, hvalue, bind,
      Except.bind, pure, Except.pure]
  | runtimeError hlexical hread herror =>
    rw [hlexical, List.map_nil, d.reportSyntax_nil] at hscan
    simp [run, hscan, Diagnostics.parse_of_read hread, Diagnostics.evaluate, herror, bind,
      Except.bind, pure, Except.pure]
  | lexicalErrors hlexical hread =>
    simp [run, hscan, Diagnostics.parse_of_read hread, Diagnostics.reportSyntax, hlexical, bind,
      Except.bind, pure, Except.pure]
  | parseError hread =>
    rw [← Diagnostics.reportSyntax_reportSyntax]
    simp [run, hscan, Diagnostics.parse_of_refused hread, bind, Except.bind, pure, Except.pure]

theorem run_outcome (source : String) (limit : Nat) (d : Diagnostics) :
    ∃ r, run source limit d = .ok r ∧ RunOutcome source limit d r := by
  suffices h : ∃ r, RunOutcome source limit d r from h.imp fun r hr => ⟨hr.run_eq, hr⟩
  rcases read_scan source limit with ⟨e, c, hread, he⟩ | ⟨error, c, hread⟩
  · by_cases hlexical : (scan source).errors = []
    · have hagrees := Evaluation.agrees_typing he.stratified he.payloadsFit
      match hvalue : e.evaluate with
      | .ok v => exact ⟨_, .value hlexical hread hvalue⟩
      | .error (.error error) => exact ⟨_, .runtimeError hlexical hread hvalue⟩
      | .error (.fault f) => exact absurd hvalue (hagrees.ne_fault f)
    · exact ⟨_, .lexicalErrors hlexical hread⟩
  · exact ⟨_, .parseError hread⟩

/-! ## No faults -/

theorem RunOutcome.isTreeOf {source : String} {limit : Nat} {d : Diagnostics}
    {r : Run × Diagnostics} (h : RunOutcome source limit d r) {e : Expr} (he : r.1.expr = some e) :
    e.IsTreeOf source := by
  cases h with
  | value _ hread | runtimeError _ hread | lexicalErrors _ hread =>
    cases he
    exact Diagnostics.isTreeOf_of_parse (Diagnostics.parse_of_read hread .empty)
  | parseError hread => cases he

theorem exists_report {r : Run} (h : ∀ e, r.expr = some e → ∃ text, e.prefixForm = .ok text)
    (d : Diagnostics) : ∃ report, Report.ofRun r d = .ok report := by
  unfold Report.ofRun
  dsimp only
  split
  · match he : r.expr with
    | none => exact ⟨_, rfl⟩
    | some e =>
      obtain ⟨text, htext⟩ := h e he
      have htree : (some e).mapM Expr.prefixForm = .ok (some text) := by
        rw [Option.mapM_some, htext]
        rfl
      rw [htree]
      exact ⟨_, rfl⟩
  · exact ⟨_, rfl⟩

/-- From the text to the report nothing is met that only tokens or trees made by hand could lead to:
the stream of tokens is as the reading wants it, the scan stays in the bounds of the text, and
reading, evaluation, prefix form, run and report come to an end without a fault. -/
theorem pipeline_faultless (source : String) (limit : Nat) (d : Diagnostics) :
    (∃ body last, (d.scan source).1 = body ++ [last] ∧ last.kind = .endOfInput ∧
      ∀ t ∈ body, t.kind ≠ .endOfInput) ∧
    (∀ t ∈ (d.scan source).1, t.PayloadFits) ∧
    scan? source = some (scan source) ∧
    (∃ expr parsed, (d.scan source).2.parse (d.scan source).1 limit = .ok (expr, parsed) ∧
      ∀ e, expr = some e →
        (∀ f, e.evaluate ≠ .error (.fault f)) ∧ ∃ text, e.prefixForm = .ok text) ∧
    ∃ r after, run source limit d = .ok (r, after) ∧
      ∀ record, ∃ report, Report.ofRun r record = .ok report := by
  have hsound : ∀ e : Expr, e.IsTreeOf source →
      (∀ f, e.evaluate ≠ .error (.fault f)) ∧ ∃ text, e.prefixForm = .ok text := fun e he =>
    ⟨(Evaluation.agrees_typing he.stratified he.payloadsFit).ne_fault,
      Expr.exists_prefixForm he.stratified he.payloadsFit⟩
  obtain ⟨body, last, htokens, hbody⟩ := scan_stream source
  have hscan : (d.scan source).1 = body ++ [Token.endMarker last] := htokens
  refine ⟨⟨body, _, hscan, rfl, fun t ht => (hbody t ht).1⟩, fun t ht => ?_, scan?_eq source, ?_,
    ?_⟩
  · rw [hscan] at ht
    rcases List.mem_append.mp ht with ht | ht
    · exact (hbody t ht).2
    · rw [List.mem_singleton.mp ht]
      exact Token.payloadFits_endMarker last
  · rcases read_scan source limit with ⟨e, c, hread, he⟩ | ⟨error, c, hread⟩
    · refine ⟨_, _, Diagnostics.parse_of_read hread _, fun e' he' => ?_⟩
      cases he'
      exact hsound e he
    · exact ⟨_, _, Diagnostics.parse_of_refused hread _, fun e' he' => nomatch he'⟩
  · obtain ⟨⟨r, after⟩, hrun, houtcome⟩ := run_outcome source limit d
    exact ⟨r, after, hrun, exists_report fun e he => (hsound e (houtcome.isTreeOf he)).2⟩

end Lox
