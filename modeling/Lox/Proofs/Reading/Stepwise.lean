import Lox.Expr.Reading

/-!
What holds of the steps of a reading holds of the whole. A relation between readings of two streams
that single steps and folds stand in, and that lasts through sequences and nestings, holds between
the readings of a whole expression (`Stepwise.whole`). A property of the readings of one stream is a
relation that looks at one side only.
-/

namespace Lox.Reading

/-- The relation lasts from step to step through readings of the two streams. -/
structure Stepwise (R : {α : Type} → Reading α → Reading α → Prop) (tokens tokens' : Array Token)
    (limit : Nat) : Prop where
  pure {α : Type} (a : α) : R (pure a) (pure a)
  refuse {α : Type} (t : Token) (cause : ParseError.Cause) :
    R (refuse t cause : Reading α) (refuse t cause)
  bind {α β : Type} {r r' : Reading α} {f f' : α → Reading β} (hr : R r r')
    (hf : ∀ a, R (f a) (f' a)) : R (r >>= f) (r' >>= f')
  current : R (current tokens) (current tokens')
  advance : R (advance tokens) (advance tokens')
  operator? (wanted : TokenKind → Bool) :
    R (operator? tokens wanted) (operator? tokens' wanted)
  nested {body body' : Reading Measured} (hb : R body body') :
    R (nested tokens limit body) (nested tokens' limit body')
  fold (level : Level) {operand operand' : Reading Measured} (ho : R operand operand')
    (left : Measured) : R (fold tokens limit level operand (tokens.size + 1) left)
      (fold tokens' limit level operand' (tokens'.size + 1) left)

namespace Stepwise

variable {R : {α : Type} → Reading α → Reading α → Prop} {tokens tokens' : Array Token}
  {limit : Nat}

theorem checkHeight (h : Stepwise R tokens tokens' limit) (top : Token) (height : Nat) :
    R (checkHeight limit top height) (checkHeight limit top height) := by
  unfold Reading.checkHeight
  split
  · exact h.refuse top _
  · exact h.pure ()

theorem chain (h : Stepwise R tokens tokens' limit) (level : Level)
    {operand operand' : Reading Measured} (ho : R operand operand') :
    R (chain tokens limit level operand) (chain tokens' limit level operand') :=
  h.bind ho fun left => h.fold level ho left

theorem binary (h : Stepwise R tokens tokens' limit) {operand operand' : Reading Measured}
    (ho : R operand operand') : R (binary tokens limit operand) (binary tokens' limit operand') :=
  h.chain .equality <| h.chain .comparison <| h.chain .sum <| h.chain .product ho

theorem primary (h : Stepwise R tokens tokens' limit) {inner inner' : Reading Measured}
    (hi : R inner inner') : R (primary tokens limit inner) (primary tokens' limit inner') := by
  refine h.bind h.current fun t => ?_
  by_cases hl : t.kind.isLeaf
  · simp only [if_pos hl]
    exact h.bind h.advance fun _ => h.pure _
  by_cases hp : t.kind = .leftParen
  · simp only [if_neg hl, if_pos hp]
    refine h.bind h.advance fun _ => h.bind hi fun tree => h.bind h.current fun close => ?_
    by_cases hc : close.kind = .rightParen
    · simp only [if_pos hc]
      exact h.bind h.advance fun _ => h.bind (h.checkHeight t _) fun _ => h.pure _
    · simp only [if_neg hc]
      exact h.refuse close _
  · simp only [if_neg hl, if_neg hp]
    exact h.refuse t _

theorem unary (h : Stepwise R tokens tokens' limit) (room : Nat) :
    R (unary tokens limit room) (unary tokens' limit room) := by
  induction room with
  | zero => exact h.nested (h.bind h.current fun t => h.refuse t _)
  | succ room ih =>
    refine h.nested (h.bind (h.operator? _) fun op? => ?_)
    cases op? with
    | none => exact h.primary (h.binary ih)
    | some op => exact h.bind ih fun operand => h.bind (h.checkHeight op _) fun _ => h.pure _

theorem whole (h : Stepwise R tokens tokens' limit) :
    R (whole tokens limit) (whole tokens' limit) := by
  refine h.bind (h.binary (h.unary limit)) fun tree => h.bind h.current fun t => ?_
  by_cases ht : t.kind = .endOfInput
  · simp only [if_pos ht]
    exact h.pure _
  · simp only [if_neg ht]
    exact h.refuse t _

end Stepwise

end Lox.Reading
