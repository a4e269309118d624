import Lox.Proofs.Expr.Lines
import Lox.Proofs.Expr.Spelling

/-!
Outlines. An outline is a tree that has places in a list of tokens for its tokens, and the list
fills it in. A tree whose tokens stand on numbered lines has its outline on them
(`Spells.covers_outline`, `Spells.fill_outline`).
-/

namespace Lox

/-- A tree with the places of its tokens. -/
inductive Outline
  | literal (place : Nat)
  | unary (operator : Nat) (operand : Outline)
  | binary (left : Outline) (operator : Nat) (right : Outline)
  | grouping (inner : Outline)
deriving DecidableEq, Repr, Inhabited

namespace Outline

/-- The tree that has the tokens at the places, if there are as many. -/
def fill (tokens : List Token) : Outline → Option Expr
  | literal place => return .literal (← tokens[place]?)
  | unary operator operand => return .unary (← tokens[operator]?) (← operand.fill tokens)
  | binary left operator right =>
    return .binary (← left.fill tokens) (← tokens[operator]?) (← right.fill tokens)
  | grouping inner => return .grouping (← inner.fill tokens)

/-- The places of the outline, and those of the parentheses around its groups, are in order all
from the first number up to before the second one. -/
inductive Covers : Outline → Nat → Nat → Prop
  | literal (place : Nat) : Covers (.literal place) place (place + 1)
  | unary (operator : Nat) {operand : Outline} {stop : Nat}
      (h : Covers operand (operator + 1) stop) : Covers (.unary operator operand) operator stop
  | binary (operator : Nat) {left right : Outline} {first stop : Nat}
      (hl : Covers left first operator) (hr : Covers right (operator + 1) stop) :
      Covers (.binary left operator right) first stop
  | grouping {inner : Outline} {first stop : Nat} (h : Covers inner (first + 1) stop) :
      Covers (.grouping inner) first (stop + 1)

end Outline

/-- The tokens stand on lines that are numbered on from the first one. -/
def IsNumbered (first : Nat) (span : List Token) : Prop :=
  span.map (·.line) = List.range' first span.length

theorem isNumbered_cons {first : Nat} {t : Token} {span : List Token} :
    IsNumbered first (t :: span) ↔ t.line = first ∧ IsNumbered (first + 1) span := by
  simp [IsNumbered, List.range'_succ]

theorem isNumbered_append {first : Nat} {span span' : List Token} :
    IsNumbered first (span ++ span') ↔
      IsNumbered first span ∧ IsNumbered (first + span.length) span' := by
  rw [IsNumbered, List.map_append, List.length_append, ← List.range'_append_1]
  constructor
  · intro h
    exact List.append_inj h (by simp)
  · rintro ⟨h, h'⟩
    rw [h, h']

namespace Expr

/-- The outline with the lines of the tokens for their places. -/
def outline : Expr → Outline
  | literal t => .literal t.line
  | unary op operand => .unary op.line operand.outline
  | binary left op right => .binary left.outline op.line right.outline
  | grouping inner => .grouping inner.outline

variable {e : Expr} {span : List Token}

/-- The outline is filled in with the tokens that take the place of those of the tree. -/
theorem Spells.fill_outline (h : e.Spells span) {tokens : List Token} {f : Token → Token}
    (hf : ∀ t ∈ span, tokens[t.line]? = some (f t)) :
    e.outline.fill tokens = some (e.map f) := by
  induction h with
  | literal t =>
    rw [outline, Outline.fill, hf t (List.mem_singleton_self t)]
    rfl
  | unary op h ih =>
    have ⟨hop, hspan⟩ := List.forall_mem_cons.mp hf
    rw [outline, Outline.fill, hop, ih hspan]
    rfl
  | binary op hl hr ihl ihr =>
    have ⟨hleft, hrest⟩ := List.forall_mem_append.mp hf
    have ⟨hop, hright⟩ := List.forall_mem_cons.mp hrest
    rw [outline, Outline.fill, ihl hleft, hop, ihr hright]
    rfl
  | grouping ho hc h ih =>
    have ⟨_, hrest⟩ := List.forall_mem_cons.mp hf
    rw [outline, Outline.fill, ih (List.forall_mem_append.mp hrest).1]
    rfl

theorem Spells.covers_outline (h : e.Spells span) {first : Nat} (hn : IsNumbered first span) :
    e.outline.Covers first (first + span.length) := by
  induction h generalizing first with
  | literal t =>
    obtain ⟨rfl, -⟩ := isNumbered_cons.mp hn
    exact .literal t.line
  | unary op h ih =>
    obtain ⟨rfl, hn⟩ := isNumbered_cons.mp hn
    rw [List.length_cons, ← Nat.add_assoc, Nat.add_right_comm]
    exact .unary op.line (ih hn)
  | @binary op left right leftSpan rightSpan hl hr ihl ihr =>
    obtain ⟨hnl, hn⟩ := isNumbered_append.mp hn
    obtain ⟨hop, hnr⟩ := isNumbered_cons.mp hn
    -- the left operand ends where the operator stands
    have hleft := ihl hnl
    have hright := ihr hnr
    rw [← hop] at hleft hright
    have hstop : first + (leftSpan ++ op :: rightSpan).length =
        op.line + 1 + rightSpan.length := by
      rw [List.length_append, List.length_cons]
      omega
    rw [hstop]
    exact .binary op.line hleft hright
  | @grouping opening closing inner span ho hc h ih =>
    obtain ⟨-, hn⟩ := isNumbered_cons.mp hn
    obtain ⟨hn, -⟩ := isNumbered_append.mp hn
    have hstop : first + (opening :: (span ++ [closing])).length =
        first + 1 + span.length + 1 := by
      rw [List.length_cons, List.length_append, List.length_singleton]
      omega
    rw [hstop]
    exact .grouping (ih hn)

end Expr

end Lox
