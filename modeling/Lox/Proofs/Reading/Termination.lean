import Lox.Proofs.Reading.Progress

/-!
Readings end by themselves. A reading is told with two bounds: the room for nestings, and the number
of operators that one fold may take. Neither is ever what ends it. The depth is checked before the
room can run out, and each step of a fold passes an operator of the stream, of which there are no
more than tokens. So a reading with any more room and any more steps is the same, from every cursor
of any stream (`wholeWithin_eq`).
-/

namespace Lox.Reading

/-! ## Readings with bounds of their own -/

section
variable (tokens : Array Token) (limit bound : Nat)

/-- One level over the next tighter one, with folds of at most so many steps. -/
def chainWithin (level : Level) (operand : Reading Measured) : Reading Measured := do
  fold tokens limit level operand bound (← operand)

/-- All levels over operands of the given sort, with folds of at most so many steps. -/
def binaryWithin (operand : Reading Measured) : Reading Measured :=
  Level.all.foldr (chainWithin tokens limit bound) operand

/-- An operand with room for so many nestings, and folds of at most so many steps in it. -/
def unaryWithin : Nat → Reading Measured
  | 0 => nested tokens limit (do refuse (← current tokens) .nestsTooDeeply)
  | room + 1 => nested tokens limit do
    match ← operator? tokens TokenKind.isUnary with
    | some op =>
      let operand ← unaryWithin room
      capped limit op ⟨.unary op operand.expr, operand.height + 1⟩
    | none => primary tokens limit (binaryWithin tokens limit bound (unaryWithin room))

/-- A whole expression, read with so much room and folds of at most so many steps. -/
def wholeWithin (room : Nat) : Reading Expr := do
  let tree ← binaryWithin tokens limit bound (unaryWithin tokens limit bound room)
  let t ← current tokens
  if t.kind = .endOfInput then pure tree.expr else refuse t .expectEnd

end

/-! ## Equal readings -/

/-- The readings do the same wherever so many nestings are open. -/
def EqualAt {α : Type} (depth : Nat) (r r' : Reading α) : Prop :=
  ∀ c, c.depth = depth → r c = r' c

theorem EqualAt.bind {α β : Type} {depth : Nat} {r r' : Reading α} {f f' : α → Reading β}
    (hr : EqualAt depth r r') (hkeeps : KeepsDepth r) (hf : ∀ a, EqualAt depth (f a) (f' a)) :
    EqualAt depth (r >>= f) (r' >>= f') := by
  intro c hc
  have hdepth := hkeeps c
  have heq := hr c hc
  cases hrun : r c with
  | ok a c' =>
    rw [hrun] at hdepth heq
    rw [bind_of_ok hrun, bind_of_ok heq.symm]
    exact hf a c' (hdepth.trans hc)
  | error e c' =>
    rw [hrun] at heq
    rw [bind_of_error hrun, bind_of_error heq.symm]

variable {tokens : Array Token} {limit bound depth : Nat}

/-! ## Folds -/

section
variable {level : Level} {operand operand' : Reading Measured}

/-- A step of a fold passes an operator that stands in the stream. -/
theorem position_of_operator? {op : Token} {c c' : Cursor}
    (h : operator? tokens (fun k => k.level? = some level) c = .ok (some op) c') :
    c.position < tokens.size ∧ c'.position = c.position + 1 := by
  unfold operator? at h
  split at h
  · next hwanted =>
    have hend : (seen tokens c).kind ≠ .endOfInput := by
      intro hk
      simp [hk, TokenKind.level?] at hwanted
    split at h
    · next t ht =>
      cases h
      exact ⟨(Array.getElem?_eq_some_iff.mp ht).1, by rw [passed, if_neg hend]⟩
    · cases h
  · cases h

/-- Folds with different numbers of steps are equal, if both numbers are greater than that of the
tokens ahead. The induction is on the steps of the first fold. -/
theorem fold_eq_of_lt (ho : EqualAt depth operand operand') (hkeeps : KeepsDepth operand)
    (hadvances : Advances operand) {steps steps' : Nat} {left : Measured} {c : Cursor}
    (hc : c.depth = depth) (hsteps : tokens.size - c.position < steps)
    (hsteps' : tokens.size - c.position < steps') :
    fold tokens limit level operand steps left c =
      fold tokens limit level operand' steps' left c := by
  induction steps generalizing steps' left c with
  | zero => exact absurd hsteps (Nat.not_lt_zero _)
  | succ steps ih =>
    obtain ⟨steps', rfl⟩ : ∃ k, steps' = k + 1 := ⟨steps' - 1, by omega⟩
    rw [fold, fold]
    cases hop : operator? tokens (fun k => k.level? = some level) c with
    | error e c₁ => rw [bind_of_error hop, bind_of_error hop]
    | ok op? c₁ =>
      rw [bind_of_ok hop, bind_of_ok hop]
      cases op? with
      | none => rfl
      | some op =>
        obtain ⟨hlt, hposition⟩ := position_of_operator? hop
        have hdepth : c₁.depth = depth := by
          have hkept : (endOf (operator? tokens (fun k => k.level? = some level) c)).depth =
              c.depth := KeepsDepth.operator? _ c
          rw [hop] at hkept
          exact hkept.trans hc
        show foldRight tokens limit level operand steps left op c₁ =
          foldRight tokens limit level operand' steps' left op c₁
        rw [foldRight_eq, foldRight_eq]
        cases hrun : operand c₁ with
        | error e c₂ =>
          rw [bind_of_error hrun, bind_of_error ((ho c₁ hdepth).symm.trans hrun)]
        | ok right c₂ =>
          have hle := hadvances.of_ok hrun
          have hdepth₂ := hkeeps c₁
          rw [hrun] at hdepth₂
          rw [bind_of_ok hrun, bind_of_ok ((ho c₁ hdepth).symm.trans hrun)]
          by_cases hh : max left.height right.height + 1 ≤ limit
          · rw [joined_of_le hh, joined_of_le hh]
            exact ih (hdepth₂.trans hdepth) (by omega) (by omega)
          · rw [joined_of_lt (Nat.lt_of_not_le hh), joined_of_lt (Nat.lt_of_not_le hh)]

end

/-! ## Operands and levels -/

/-- Equal readings of trees, which neither go back nor leave a nesting open. -/
structure Coincide (depth : Nat) (r r' : Reading Measured) : Prop where
  equalAt : EqualAt depth r r'
  keepsDepth : KeepsDepth r
  advances : Advances r

section
variable {operand operand' : Reading Measured} (hbound : tokens.size < bound)
include hbound

theorem Coincide.chain (level : Level) (h : Coincide depth operand operand') :
    Coincide depth (chain tokens limit level operand)
      (chainWithin tokens limit bound level operand') where
  equalAt := h.equalAt.bind h.keepsDepth fun left c hc =>
    fold_eq_of_lt h.equalAt h.keepsDepth h.advances hc (by omega) (by omega)
  keepsDepth := @Stepwise.chain _ tokens tokens limit (KeepsDepth.stepwise tokens limit) level
    operand operand h.keepsDepth
  advances := @Stepwise.chain _ tokens tokens limit (Advances.stepwise tokens limit) level
    operand operand h.advances

theorem Coincide.binary (h : Coincide depth operand operand') :
    Coincide depth (binary tokens limit operand) (binaryWithin tokens limit bound operand') :=
  .chain hbound .equality <| .chain hbound .comparison <| .chain hbound .sum <|
    .chain hbound .product h

end

theorem EqualAt.current_bind {α : Type} {f f' : Token → Reading α}
    (hf : ∀ t, EqualAt depth (f t) (f' t)) :
    EqualAt depth (current tokens >>= f) (current tokens >>= f') :=
  EqualAt.bind (fun _ _ => rfl) (fun _ => rfl) hf

theorem EqualAt.operator?_bind {α : Type} {wanted : TokenKind → Bool}
    {f f' : Option Token → Reading α} (hf : ∀ op?, EqualAt depth (f op?) (f' op?)) :
    EqualAt depth (operator? tokens wanted >>= f) (operator? tokens wanted >>= f') :=
  EqualAt.bind (fun _ _ => rfl) (KeepsDepth.operator? wanted) hf

theorem EqualAt.advance_bind {α : Type} {f f' : Unit → Reading α}
    (hf : ∀ u, EqualAt depth (f u) (f' u)) :
    EqualAt depth (advance tokens >>= f) (advance tokens >>= f') :=
  EqualAt.bind (fun _ _ => rfl) (fun c => KeepsDepth.passed_depth c) hf

theorem Coincide.primary {inner inner' : Reading Measured} (h : Coincide depth inner inner') :
    EqualAt depth (primary tokens limit inner) (primary tokens limit inner') := by
  refine .current_bind fun t => ?_
  split
  · exact fun _ _ => rfl
  · split
    · refine .advance_bind fun _ => h.equalAt.bind h.keepsDepth fun tree => ?_
      exact fun _ _ => rfl
    · exact fun _ _ => rfl

theorem unary_of_not_lt {c : Cursor} (h : ¬ c.depth < limit) (room : Nat) :
    unary tokens limit room c = .error (.error (.atToken (seen tokens c) .nestsTooDeeply)) c := by
  cases room <;> exact nested_of_not_lt h _

theorem unaryWithin_of_not_lt {c : Cursor} (h : ¬ c.depth < limit) (room : Nat) :
    unaryWithin tokens limit bound room c =
      .error (.error (.atToken (seen tokens c) .nestsTooDeeply)) c := by
  cases room <;> exact nested_of_not_lt h _

/-- Where the limit allows no more nestings than there is room for, more room makes no difference.
The induction is on the room, which shrinks as the depth grows. -/
theorem coincide_unary (hbound : tokens.size < bound) {room room' : Nat}
    (hroom : limit ≤ depth + room) (hroom' : limit ≤ depth + room') :
    Coincide depth (unary tokens limit room) (unaryWithin tokens limit bound room') := by
  refine ⟨?_, (KeepsDepth.stepwise tokens limit).unary room,
    (Advances.stepwise tokens limit).unary room⟩
  induction room generalizing depth room' with
  | zero =>
    intro c hc
    rw [unary_of_not_lt (by omega), unaryWithin_of_not_lt (by omega)]
  | succ room ih =>
    intro c hc
    by_cases hl : c.depth < limit
    · obtain ⟨room', rfl⟩ : ∃ k, room' = k + 1 := ⟨room' - 1, by omega⟩
      have hkeeps := (KeepsDepth.stepwise tokens limit).unary room
      have hadvances := (Advances.stepwise tokens limit).unary room
      have hoperand : Coincide (depth + 1) (unary tokens limit room)
          (unaryWithin tokens limit bound room') :=
        ⟨ih (by omega) (by omega), hkeeps, hadvances⟩
      rw [unary, unaryWithin, nested_of_lt hl, nested_of_lt hl]
      have hdeeper : (deeper c).depth = depth + 1 := congrArg (· + 1) hc
      refine congrArg shallower (EqualAt.operator?_bind (fun op? => ?_) (deeper c) hdeeper)
      cases op? with
      | none => exact (hoperand.binary hbound).primary
      | some op => exact hoperand.equalAt.bind hkeeps fun _ _ _ => rfl
    · rw [unary_of_not_lt hl, unaryWithin_of_not_lt hl]

/-- A reading needs no more room than the limit allows nestings, and no more steps for a fold than
there are tokens. -/
theorem wholeWithin_eq {room : Nat} (hroom : limit ≤ room) (hbound : tokens.size < bound) :
    wholeWithin tokens limit bound room = whole tokens limit := by
  funext c
  have hunary : Coincide c.depth (unary tokens limit limit)
      (unaryWithin tokens limit bound room) := coincide_unary hbound (by omega) (by omega)
  have hbinary : Coincide c.depth (expression tokens limit)
      (binaryWithin tokens limit bound (unaryWithin tokens limit bound room)) :=
    hunary.binary hbound
  exact (hbinary.equalAt.bind hbinary.keepsDepth (fun _ _ _ => rfl) c rfl).symm

end Lox.Reading
