import Lox.Proofs.Reading.Completeness
import Lox.Run.Basic

/-!
Readings of a whole stream whose only end marker is its last token. The reading succeeds with a
tree exactly if the tree is one of the grammar, spells the tokens before the end marker and is not
higher than the limit (`parse_eq_some_iff`); so a stream has at most one tree.
-/

namespace Lox.Reading

open Automaton (verdict)

variable {body : List Token} {last : Token} {limit : Nat} {e : Expr}

theorem ahead_start (tokens : List Token) : ahead tokens.toArray .start = tokens := rfl

theorem endAhead_start (hlast : last.kind = .endOfInput) :
    EndAhead (body ++ [last]).toArray .start :=
  ⟨last, by simp [ahead_start], hlast⟩

/-- Before the only end marker of a stream lies what has no end marker in it. -/
theorem eq_body_of_append {span rest : List Token} {t : Token}
    (hbody : ∀ u ∈ body, u.kind ≠ .endOfInput) (hspan : ∀ u ∈ span, u.kind ≠ .endOfInput)
    (hlast : last.kind = .endOfInput) (ht : t.kind = .endOfInput)
    (h : body ++ [last] = span ++ t :: rest) : span = body := by
  have hb : (body ++ [last]).takeWhile (·.kind ≠ .endOfInput) = body := by
    rw [List.takeWhile_append_of_pos (by simpa using hbody),
      List.takeWhile_cons_of_neg (by simp [hlast]), List.append_nil]
  have hs : (span ++ t :: rest).takeWhile (·.kind ≠ .endOfInput) = span := by
    rw [List.takeWhile_append_of_pos (by simpa using hspan),
      List.takeWhile_cons_of_neg (by simp [ht]), List.append_nil]
  rw [← hs, ← h, hb]

/-- How a reading of the whole stream may end. -/
theorem whole_outcome (hbody : ∀ t ∈ body, t.kind ≠ .endOfInput) (hlast : last.kind = .endOfInput)
    (limit : Nat) :
    match whole (body ++ [last]).toArray limit .start with
    | .ok e c => c = ⟨body.length, 0⟩ ∧ e.Spells body ∧ e.IsStratified ∧ e.height ≤ limit ∧
      verdict Automaton.start (body ++ [last]) = .accepted
    | .error e _ => ∃ t cause, e = .error (.atToken t cause) ∧
      (cause = .nestsTooDeeply ∧ limit < (body ++ [last]).length ∨
        verdict Automaton.start (body ++ [last]) =
          .stuck t (ParseError.atToken t cause).message) := by
  have hstart : ahead (body ++ [last]).toArray .start = body ++ [last] := ahead_start _
  have hexpr := expression_meets (body ++ [last]).toArray limit .start rfl (endAhead_start hlast)
  rw [hstart, Nat.zero_add] at hexpr
  cases hr : expression (body ++ [last]).toArray limit .start with
  | error e c =>
    rw [hr] at hexpr
    rw [whole, bind_of_error hr]
    obtain ⟨t, cause, he, htoo | hstuck⟩ := hexpr
    · exact ⟨t, cause, he, .inl htoo⟩
    · rw [hstart] at hstuck
      exact ⟨t, cause, he, .inr (hstuck 0)⟩
  | ok m c =>
    rw [hr] at hexpr
    obtain ⟨span, rfl, hreads, hheight, hstop⟩ := hexpr
    obtain ⟨t, rest, ha⟩ := (hreads.endAhead (endAhead_start hlast)).exists_cons
    have hverdict := hreads.verdict_eq 0
    rw [hstart, ha] at hverdict
    rw [ha] at hstop
    have hstep := Automaton.step_after hstop.tightness?_eq_none 0
    rw [whole, bind_of_ok hr, bind_of_ok (current_of_ahead ha)]
    -- no group is open behind the expression, so nothing but the end marker fits
    by_cases ht : t.kind = .endOfInput
    · have heq : body ++ [last] = span ++ t :: rest := by rw [← ha, ← hreads.ahead_eq, hstart]
      have hspan : span = body :=
        eq_body_of_append hbody (hreads.spells.kind_ne_end hreads.stratified) hlast ht heq
      subst hspan
      rw [if_pos ht]
      rw [hreads.height_eq] at hheight
      refine ⟨by simp [forward, Cursor.start], hreads.spells, hreads.stratified, hheight, ?_⟩
      exact hverdict.trans (Automaton.verdict_of_accepted (hstep.trans (if_pos ht)) rest)
    · rw [if_neg ht]
      exact ⟨t, .expectEnd, rfl, .inr
        (hverdict.trans (Automaton.verdict_of_stuck (hstep.trans (if_neg ht)) rest))⟩

/-- A tree of the grammar is read if it is not higher than the limit. -/
theorem whole_of_spells (hlast : last.kind = .endOfInput) (hs : e.Spells body)
    (ht : e.IsStratified) (hh : e.height ≤ limit) :
    whole (body ++ [last]).toArray limit .start = .ok e ⟨body.length, 0⟩ := by
  have hstop : StopsAt 0 [last] := by
    intro t ht m hm
    cases ht
    simp [hlast, TokenKind.tightness?] at hm
  have hl : LiesAhead (body ++ [last]).toArray limit .start e body [last] :=
    ⟨rfl, List.cons_ne_nil _ _, hs, ht, by simpa [Cursor.start] using hh⟩
  have ha : ahead (body ++ [last]).toArray (forward .start body.length) = [last] :=
    ahead_forward (ahead_start _)
  rw [whole, bind_of_ok (expression_finds _ _ hl rfl (Nat.zero_le _) hstop),
    bind_of_ok (current_of_ahead ha), if_pos hlast]
  simp [forward, Cursor.start, pure, EStateM.pure]

/-! ## Attempts -/

theorem read_of_ok {tokens : List Token} {c c' : Cursor} (hne : tokens ≠ [])
    (h : whole tokens.toArray limit c = .ok e c') :
    Expr.read tokens limit c = .ok ⟨some e, none, c'⟩ := by
  simp [Expr.read, hne, h]

theorem read_of_error {tokens : List Token} {c c' : Cursor} {error : ParseError}
    (hne : tokens ≠ []) (h : whole tokens.toArray limit c = .error (.error error) c') :
    Expr.read tokens limit c = .ok ⟨none, some error, c'⟩ := by
  simp [Expr.read, hne, h]

theorem read_of_spells (hlast : last.kind = .endOfInput) (hs : e.Spells body)
    (ht : e.IsStratified) (hh : e.height ≤ limit) :
    Expr.read (body ++ [last]) limit .start = .ok ⟨some e, none, ⟨body.length, 0⟩⟩ :=
  read_of_ok (by simp) (whole_of_spells hlast hs ht hh)

/-- A reading of the whole stream ends with a tree or with an error, and never with a fault. -/
theorem read_outcome (hbody : ∀ t ∈ body, t.kind ≠ .endOfInput) (hlast : last.kind = .endOfInput)
    (limit : Nat) :
    (∃ e, Expr.read (body ++ [last]) limit .start = .ok ⟨some e, none, ⟨body.length, 0⟩⟩ ∧
      e.Spells body ∧ e.IsStratified ∧ e.height ≤ limit ∧
      verdict Automaton.start (body ++ [last]) = .accepted) ∨
    ∃ t cause c, Expr.read (body ++ [last]) limit .start = .ok ⟨none, some (.atToken t cause), c⟩ ∧
      (cause = .nestsTooDeeply ∧ limit < (body ++ [last]).length ∨
        verdict Automaton.start (body ++ [last]) =
          .stuck t (ParseError.atToken t cause).message) := by
  have hw := whole_outcome hbody hlast limit
  have hne : body ++ [last] ≠ [] := by simp
  cases hr : whole (body ++ [last]).toArray limit .start with
  | ok e c =>
    rw [hr] at hw
    obtain ⟨rfl, hw⟩ := hw
    exact .inl ⟨e, read_of_ok hne hr, hw⟩
  | error e c =>
    rw [hr] at hw
    obtain ⟨t, cause, rfl, hw⟩ := hw
    exact .inr ⟨t, cause, c, read_of_error hne hr, hw⟩

/-! ## The trees that are read -/

/-- The trees that are read are those of the grammar that are not higher than the limit, and a
stream has at most one. -/
theorem parse_eq_some_iff (hbody : ∀ t ∈ body, t.kind ≠ .endOfInput)
    (hlast : last.kind = .endOfInput) (limit : Nat) (d : Diagnostics) :
    (∀ e, (d.parse (body ++ [last]) limit).map Prod.fst = .ok (some e) ↔
      e.Spells body ∧ e.IsStratified ∧ e.height ≤ limit) ∧
    ∀ e e' : Expr, e.Spells body → e.IsStratified → e'.Spells body → e'.IsStratified → e = e' := by
  refine ⟨fun e => ⟨fun h => ?_, fun ⟨hs, ht, hh⟩ => ?_⟩, fun e e' hs ht hs' ht' => ?_⟩
  · rcases read_outcome hbody hlast limit with ⟨e', hr, hs, ht, hh, -⟩ | ⟨t, cause, c, hr, -⟩
    · simp only [Diagnostics.parse, hr] at h
      cases h
      exact ⟨hs, ht, hh⟩
    · simp only [Diagnostics.parse, hr] at h
      cases h
  · rw [Diagnostics.parse, read_of_spells hlast hs ht hh]
    rfl
  · -- under a limit that neither exceeds, one and the same reading finds both
    have h := read_of_spells hlast hs ht (Nat.le_max_left e.height e'.height)
    rw [read_of_spells hlast hs' ht' (Nat.le_max_right e.height e'.height)] at h
    cases h
    rfl

/-- `1 - 1` under a limit that is as high as its tree. -/
theorem parse_difference :
    let one : Token := ⟨1, .number, "1", some (.number 1)⟩
    let minus : Token := ⟨1, .minus, "-", none⟩
    (∀ t ∈ [one, minus, one], t.kind ≠ .endOfInput) ∧ (Token.endMarker 1).kind = .endOfInput ∧
      (Diagnostics.empty.parse ([one, minus, one] ++ [Token.endMarker 1]) 2).map Prod.fst =
        .ok (some (.binary (.literal one) minus (.literal one))) := by
  intro one minus
  refine ⟨by decide, rfl, ((parse_eq_some_iff (by decide) rfl 2 .empty).1 _).mpr ⟨?_, ?_⟩⟩
  · exact .binary minus (.literal one) (.literal one)
  · decide

end Lox.Reading
