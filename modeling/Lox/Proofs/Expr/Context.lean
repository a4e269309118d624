import Lox.Expr.Evaluation
import Lox.Proofs.Expr.Spelling

/-!
The places in a tree. A context is a tree with a hole, so that `C.fill n` is a tree with a node `n`
at a certain place, and the tokens of `n` stand between those that the context spells. What fills
the hole can be exchanged: for something that binds as tight the tree stays one of the grammar, and
for something of the same value it keeps its value.
-/

namespace Lox.Expr

/-- A tree with a hole. -/
inductive Context
  | hole
  | unary (op : Token) (operand : Context)
  | left (left : Context) (op : Token) (right : Expr)
  | right (left : Expr) (op : Token) (right : Context)
  | grouping (inner : Context)
deriving BEq, Inhabited

namespace Context

def fill : Context → Expr → Expr
  | hole, n => n
  | unary op operand, n => .unary op (operand.fill n)
  | left l op r, n => .binary (l.fill n) op r
  | right l op r, n => .binary l op (r.fill n)
  | grouping inner, n => .grouping (inner.fill n)

/-- The tokens before the hole and those behind it. -/
inductive Spells : Context → List Token → List Token → Prop
  | hole : Spells .hole [] []
  | unary (op : Token) {operand : Context} {before after : List Token}
      (h : Spells operand before after) : Spells (.unary op operand) (op :: before) after
  | left (op : Token) {left : Context} {right : Expr} {before after span : List Token}
      (h : Spells left before after) (hr : right.Spells span) :
      Spells (.left left op right) before (after ++ op :: span)
  | right (op : Token) {left : Expr} {right : Context} {before after span : List Token}
      (hl : left.Spells span) (h : Spells right before after) :
      Spells (.right left op right) (span ++ op :: before) after
  | grouping {opening closing : Token} {inner : Context} {before after : List Token}
      (ho : opening.kind = .leftParen) (hc : closing.kind = .rightParen)
      (h : Spells inner before after) :
      Spells (.grouping inner) (opening :: before) (after ++ [closing])

variable {C : Context} {n n' : Expr} {before span after : List Token}

/-! ## Spelling -/

theorem Spells.fill (h : C.Spells before after) (hn : n.Spells span) :
    (C.fill n).Spells (before ++ span ++ after) := by
  induction h with
  | hole => simpa [Context.fill] using hn
  | unary op h ih => exact .unary op ih
  | left op h hr ih =>
    rw [← List.append_assoc]
    exact .binary op ih hr
  | @right op left right before after leftSpan hl h ih =>
    have hspan : leftSpan ++ op :: before ++ span ++ after =
        leftSpan ++ op :: (before ++ span ++ after) := by simp
    rw [hspan]
    exact .binary op hl ih
  | grouping ho hc h ih =>
    rw [← List.append_assoc]
    exact .grouping ho hc ih

/-- Every node of a tree has its span among the tokens of the tree. -/
theorem exists_of_spells_fill {tokens : List Token} (h : (C.fill n).Spells tokens) :
    ∃ before span after, tokens = before ++ span ++ after ∧ C.Spells before after ∧
      n.Spells span := by
  induction C generalizing tokens with
  | hole => exact ⟨[], tokens, [], by simp, .hole, h⟩
  | unary op operand ih =>
    cases h with
    | unary _ h =>
      obtain ⟨before, span, after, rfl, hC, hn⟩ := ih h
      exact ⟨op :: before, span, after, rfl, .unary op hC, hn⟩
  | left l op r ih =>
    cases h with
    | binary _ hl hr =>
      obtain ⟨before, span, after, rfl, hC, hn⟩ := ih hl
      exact ⟨before, span, _, by simp, .left op hC hr, hn⟩
  | right l op r ih =>
    cases h with
    | binary _ hl hr =>
      obtain ⟨before, span, after, rfl, hC, hn⟩ := ih hr
      exact ⟨_, span, after, by simp, .right op hl hC, hn⟩
  | grouping inner ih =>
    cases h with
    | grouping ho hc h =>
      obtain ⟨before, span, after, rfl, hC, hn⟩ := ih h
      exact ⟨_, span, _, by simp, .grouping ho hc hC, hn⟩

/-! ## Exchanging what fills the hole -/

theorem tightness_fill_le (h : n.tightness ≤ n'.tightness) :
    (C.fill n).tightness ≤ (C.fill n').tightness := by
  cases C with
  | hole => exact h
  | unary | left | right | grouping => exact Nat.le_refl _

theorem isStratified_fill (h : (C.fill n).IsStratified) (ht : n.tightness ≤ n'.tightness)
    (hn : n.IsStratified → n'.IsStratified) : (C.fill n').IsStratified := by
  induction C with
  | hole => exact hn h
  | unary op operand ih =>
    obtain ⟨hop, htight, hs⟩ := h
    exact ⟨hop, Nat.le_trans htight (tightness_fill_le ht), ih hs⟩
  | left l op r ih =>
    obtain ⟨m, hop, hl, hr, hsl, hsr⟩ := h
    exact ⟨m, hop, Nat.le_trans hl (tightness_fill_le ht), hr, ih hsl, hsr⟩
  | right l op r ih =>
    obtain ⟨m, hop, hl, hr, hsl, hsr⟩ := h
    exact ⟨m, hop, hl, Nat.lt_of_lt_of_le hr (tightness_fill_le ht), hsl, ih hsr⟩
  | grouping inner ih => exact ih h

theorem height_fill_le {k : Nat} (h : n'.height ≤ n.height + k) :
    (C.fill n').height ≤ (C.fill n).height + k := by
  induction C with
  | hole => exact h
  | unary | left | right | grouping =>
    simp only [fill, height]
    omega

theorem evaluate_fill (h : n'.evaluate = n.evaluate) :
    (C.fill n').evaluate = (C.fill n).evaluate := by
  induction C with
  | hole => exact h
  | unary _ _ ih | left _ _ _ ih | right _ _ _ ih =>
    rw [fill, fill, Expr.evaluate, ih, Expr.evaluate]
  | grouping inner ih => exact ih

end Context

theorem tightness_le (e : Expr) : e.tightness ≤ 5 := by
  cases e with
  | literal | unary | grouping => simp [tightness]
  | binary left op right =>
    cases hop : op.kind.tightness? with
    | none => simp [tightness, hop]
    | some n =>
      have hn := TokenKind.tightness?_lt hop
      simp only [tightness, hop, Option.getD_some]
      omega

end Lox.Expr
