import Mathlib
import Lox.Proofs.Expr.Context
import Lox.Proofs.Run.Outcome

/-!
Redundant parentheses. A pair of them around the span of any node of a tree makes a grouping of the
node and changes nothing else, neither the rest of the tree nor its value; the tree grows by at most
one node in height (`parse_parenthesized`).
-/

namespace Lox

open Lox.Expr (Context)

namespace Expr

variable {C : Context} {n : Expr}

theorem isStratified_fill_grouping (h : (C.fill n).IsStratified) :
    (C.fill (.grouping n)).IsStratified :=
  Context.isStratified_fill h n.tightness_le id

theorem height_fill_grouping_le : (C.fill (.grouping n)).height ≤ (C.fill n).height + 1 :=
  Context.height_fill_le (Nat.le_refl _)

theorem evaluate_fill_grouping : (C.fill (.grouping n)).evaluate = (C.fill n).evaluate :=
  Context.evaluate_fill rfl

theorem Context.Spells.fill_grouping {before span after : List Token} {opening closing : Token}
    (h : C.Spells before after) (hn : n.Spells span) (ho : opening.kind = .leftParen)
    (hc : closing.kind = .rightParen) :
    (C.fill (.grouping n)).Spells (before ++ opening :: (span ++ closing :: after)) := by
  have hspells := h.fill (.grouping ho hc hn)
  simpa using hspells

end Expr

/-- Every node `n` of a tree that has been read has its span among the tokens, and with parentheses
around it they are read as the same tree with `n` in a grouping, of the same value. -/
theorem parse_parenthesized {source : String} {limit : Nat} {d parsed : Diagnostics} {C : Context}
    {n : Expr} (h : d.parse (scan source).tokens limit = .ok (some (C.fill n), parsed)) :
    (∃ before span after last, (scan source).tokens = before ++ span ++ after ++ [last] ∧
      C.Spells before after ∧ n.Spells span) ∧
    (∀ before span after last, (scan source).tokens = before ++ span ++ after ++ [last] →
      C.Spells before after → n.Spells span →
      ∀ opening closing : Token, opening.kind = .leftParen → closing.kind = .rightParen →
      ∀ limit', (C.fill n).height + 1 ≤ limit' → ∀ d' : Diagnostics,
        d'.parse (before ++ opening :: (span ++ closing :: after) ++ [last]) limit' =
          .ok (some (C.fill (.grouping n)), d')) ∧
    (C.fill (.grouping n)).evaluate = (C.fill n).evaluate ∧
    ∀ f, (C.fill n).evaluate ≠ .error (.fault f) := by
  obtain ⟨⟨body, line, htokens, hbody, hspells⟩, hs, hp⟩ := Diagnostics.isTreeOf_of_parse h
  refine ⟨?_, ?_, Expr.evaluate_fill_grouping, (Evaluation.agrees_typing hs hp).ne_fault⟩
  · obtain ⟨before, span, after, rfl, hC, hn⟩ := Context.exists_of_spells_fill hspells
    exact ⟨before, span, after, _, htokens, hC, hn⟩
  · intro before span after last hsplit hC hn opening closing ho hc limit' hlimit d'
    have hlast : last.kind = .endOfInput := by
      rw [htokens] at hsplit
      obtain ⟨-, hmarker⟩ := List.append_inj' hsplit rfl
      cases hmarker
      rfl
    exact Diagnostics.parse_of_read (Reading.read_of_spells hlast (hC.fill_grouping hn ho hc)
      (Expr.isStratified_fill_grouping hs) (Nat.le_trans Expr.height_fill_grouping_le hlimit)) d'

/-- `!nil == nil`, with parentheses around the first `nil`. -/
theorem parse_parenthesized_negation :
    let bang : Token := ⟨1, .bang, "!", none⟩
    let nil : Token := ⟨1, .keyword .nilWord, "nil", none⟩
    let equal : Token := ⟨1, .equalEqual, "==", none⟩
    let opening : Token := ⟨1, .leftParen, "(", none⟩
    let closing : Token := ⟨1, .rightParen, ")", none⟩
    let C : Context := .left (.unary bang .hole) equal (.literal nil)
    Diagnostics.empty.parse (scan "!nil == nil").tokens 3 =
        .ok (some (C.fill (.literal nil)), .empty) ∧
      (scan "!nil == nil").tokens = [bang] ++ [nil] ++ [equal, nil] ++ [Token.endMarker 1] ∧
      C.Spells [bang] [equal, nil] ∧ (Expr.literal nil).Spells [nil] ∧
      opening.kind = .leftParen ∧ closing.kind = .rightParen ∧
      (C.fill (.literal nil)).height + 1 ≤ 4 ∧
      Diagnostics.empty.parse [bang, opening, nil, closing, equal, nil, Token.endMarker 1] 4 =
        .ok (some (C.fill (.grouping (.literal nil))), .empty) ∧
      (C.fill (.grouping (.literal nil))).evaluate = (C.fill (.literal nil)).evaluate := by
  intro bang nil equal opening closing C
  have h : Diagnostics.empty.parse (scan "!nil == nil").tokens 3 =
      .ok (some (C.fill (.literal nil)), .empty) := by cbv
  have htokens : (scan "!nil == nil").tokens =
      [bang] ++ [nil] ++ [equal, nil] ++ [Token.endMarker 1] := by cbv
  have hC : C.Spells [bang] [equal, nil] := .left equal (.unary bang .hole) (.literal nil)
  have hn : (Expr.literal nil).Spells [nil] := .literal nil
  obtain ⟨-, hparse, hvalue, -⟩ := parse_parenthesized h
  exact ⟨h, htokens, hC, hn, rfl, rfl, by decide,
    hparse _ _ _ _ htokens hC hn opening closing rfl rfl 4 (by decide) .empty, hvalue⟩

end Lox
