import Lox.Expr.Basic
import Lox.Expr.Grammar

/-!
The trees of the grammar, apart from any reading. A tree spells a list of tokens if reading it in
order gives the list (`Expr.Spells`), and it is stratified if its operators are nested as the six
levels allow (`Expr.IsStratified`). No tree is higher than what it spells is long
(`Spells.height_le_length`).
-/

namespace Lox

namespace TokenKind

/-- The binary operators, by how tightly they bind. -/
def tightness? : TokenKind → Option Nat
  | equalEqual | bangEqual => some 0
  | less | lessEqual | greater | greaterEqual => some 1
  | plus | minus => some 2
  | star | slash => some 3
  | _ => none

theorem tightness?_lt {k : TokenKind} {n : Nat} (h : k.tightness? = some n) : n < 4 := by
  cases k <;> cases h <;> decide

theorem isUnary_iff (k : TokenKind) : k.isUnary = true ↔ k = bang ∨ k = minus := by
  cases k <;> simp [isUnary]

theorem isLeaf_iff (k : TokenKind) : k.isLeaf = true ↔
    k ∈ [number, string, keyword .trueWord, keyword .falseWord, keyword .nilWord] := by
  cases k with
  | keyword w => cases w <;> simp [isLeaf]
  | _ => simp [isLeaf]

end TokenKind

/-- Counts the levels from the loosest one. -/
def Level.tightness : Level → Nat
  | equality => 0
  | comparison => 1
  | sum => 2
  | product => 3

theorem Level.tightness_lt (level : Level) : level.tightness < 4 := by
  cases level <;> decide

theorem TokenKind.level?_eq_some_iff (k : TokenKind) (level : Level) :
    k.level? = some level ↔ k.tightness? = some level.tightness := by
  cases k <;> cases level <;> simp [level?, tightness?, Level.tightness]

namespace Expr

/-- Prefix operators bind tighter than every binary one, leaves and groupings tightest. -/
def tightness : Expr → Nat
  | literal _ => 5
  | unary _ _ => 4
  | binary _ op _ => op.kind.tightness?.getD 0
  | grouping _ => 5

/-- The left operand of a binary operator binds at least as tight as the operator and the right one
tighter; the operand of a prefix operator is no binary operation. -/
def IsStratified : Expr → Prop
  | literal t =>
    t.kind ∈ [.number, .string, .keyword .trueWord, .keyword .falseWord, .keyword .nilWord]
  | unary op operand =>
    (op.kind = .bang ∨ op.kind = .minus) ∧ 4 ≤ operand.tightness ∧ operand.IsStratified
  | binary left op right => ∃ n, op.kind.tightness? = some n ∧
    n ≤ left.tightness ∧ n < right.tightness ∧ left.IsStratified ∧ right.IsStratified
  | grouping inner => inner.IsStratified

instance decidableIsStratified : (e : Expr) → Decidable e.IsStratified
  | literal t => inferInstanceAs (Decidable (t.kind ∈
      [.number, .string, .keyword .trueWord, .keyword .falseWord, .keyword .nilWord]))
  | unary op operand =>
    have := decidableIsStratified operand
    inferInstanceAs (Decidable ((op.kind = .bang ∨ op.kind = .minus) ∧
      4 ≤ operand.tightness ∧ operand.IsStratified))
  | binary left op right =>
    have := decidableIsStratified left
    have := decidableIsStratified right
    inferInstanceAs (Decidable (∃ n ∈ op.kind.tightness?,
      n ≤ left.tightness ∧ n < right.tightness ∧ left.IsStratified ∧ right.IsStratified))
  | grouping inner => decidableIsStratified inner

/-- A tree, read in order, gives a list of tokens. A grouping stands for a parenthesis on either
side, of which it keeps nothing. -/
inductive Spells : Expr → List Token → Prop
  | literal (t : Token) : Spells (.literal t) [t]
  | unary (op : Token) {operand : Expr} {span : List Token} (h : Spells operand span) :
      Spells (.unary op operand) (op :: span)
  | binary (op : Token) {left right : Expr} {leftSpan rightSpan : List Token}
      (hl : Spells left leftSpan) (hr : Spells right rightSpan) :
      Spells (.binary left op right) (leftSpan ++ op :: rightSpan)
  | grouping {opening closing : Token} {inner : Expr} {span : List Token}
      (ho : opening.kind = .leftParen) (hc : closing.kind = .rightParen) (h : Spells inner span) :
      Spells (.grouping inner) (opening :: (span ++ [closing]))

theorem Spells.height_le_length {e : Expr} {span : List Token} (h : e.Spells span) :
    e.height ≤ span.length := by
  induction h with
  | literal => simp [height]
  | unary op h ih => simpa [height] using ih
  | binary op hl hr ihl ihr =>
    simp only [height, List.length_append, List.length_cons]
    omega
  | grouping ho hc h ih =>
    simp only [height, List.length_append, List.length_cons, List.length_nil]
    omega

/-- No tree of the grammar contains an end marker. -/
theorem Spells.kind_ne_end {e : Expr} {span : List Token} (h : e.Spells span)
    (hs : e.IsStratified) : ∀ t ∈ span, t.kind ≠ .endOfInput := by
  induction h with
  | literal t =>
    intro u hu he
    rw [List.mem_singleton] at hu
    subst hu
    simp [IsStratified, he] at hs
  | unary op h ih =>
    obtain ⟨hop, -, hs⟩ := hs
    intro t ht he
    rcases List.mem_cons.mp ht with rfl | ht
    · simp [he] at hop
    · exact ih hs t ht he
  | binary op hl hr ihl ihr =>
    obtain ⟨n, hop, -, -, hsl, hsr⟩ := hs
    intro t ht he
    rcases List.mem_append.mp ht with ht | ht
    · exact ihl hsl t ht he
    rcases List.mem_cons.mp ht with rfl | ht
    · simp [he, TokenKind.tightness?] at hop
    · exact ihr hsr t ht he
  | grouping ho hc h ih =>
    intro t ht he
    rcases List.mem_cons.mp ht with rfl | ht
    · simp [he] at ho
    rcases List.mem_append.mp ht with ht | ht
    · exact ih hs t ht he
    · rw [List.mem_singleton] at ht
      subst ht
      simp [he] at hc

end Expr

end Lox
