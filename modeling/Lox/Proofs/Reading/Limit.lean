import Lox.Proofs.Reading.Whole

/-!
Raising the limit. A reading under a higher limit takes the same steps until the lower limit stops
it (`Extends`), so what is not too deep stays as it is (`read_mono`), and under a limit of as
many nodes as there are tokens nothing is too deep.
-/

namespace Lox.Reading

open Automaton (verdict)

def IsTooDeep {α : Type} : EStateM.Result (Halt ParseError) Cursor α → Prop
  | .error e _ => ∃ error, e = .error error ∧ error.cause = .nestsTooDeeply
  | .ok _ _ => False

/-- Wherever the first reading is not stopped by the limit, the second one does the same. -/
def Extends {α : Type} (r r' : Reading α) : Prop :=
  ∀ c, IsTooDeep (r c) ∨ r' c = r c

namespace Extends

variable {α β : Type} {tokens : Array Token} {m m' : Nat}

theorem refl (r : Reading α) : Extends r r :=
  fun _ => .inr rfl

theorem bind {r r' : Reading α} {f f' : α → Reading β} (h : Extends r r')
    (hf : ∀ a, Extends (f a) (f' a)) : Extends (r >>= f) (r' >>= f') := by
  intro c
  rcases h c with hd | he
  · cases hr : r c with
    | ok a c' =>
      rw [hr] at hd
      exact hd.elim
    | error e c' =>
      rw [hr] at hd
      rw [bind_of_error hr]
      exact .inl hd
  · cases hr : r c with
    | ok a c' =>
      rw [bind_of_ok hr, bind_of_ok (he.trans hr)]
      exact hf a c'
    | error e c' =>
      rw [bind_of_error hr, bind_of_error (he.trans hr)]
      exact .inr rfl

theorem checkHeight (h : m ≤ m') (top : Token) (height : Nat) :
    Extends (checkHeight m top height) (checkHeight m' top height) := by
  intro c
  by_cases hm : height ≤ m
  · rw [checkHeight_of_le hm, checkHeight_of_le (Nat.le_trans hm h)]
    exact .inr rfl
  · rw [checkHeight_of_lt (Nat.lt_of_not_le hm)]
    exact .inl ⟨_, rfl, rfl⟩

theorem isTooDeep_shallower {x : EStateM.Result (Halt ParseError) Cursor α} (h : IsTooDeep x) :
    IsTooDeep (shallower x) := by
  cases x with
  | ok a c => exact h
  | error e c => exact h

theorem nested (h : m ≤ m') {body body' : Reading α} (hb : Extends body body') :
    Extends (nested tokens m body) (nested tokens m' body') := by
  intro c
  by_cases hm : c.depth < m
  · -- a depth that the lower limit allows is allowed by the higher one
    rw [nested_of_lt hm, nested_of_lt (Nat.lt_of_lt_of_le hm h)]
    exact (hb (deeper c)).imp isTooDeep_shallower (congrArg shallower)
  · rw [nested_of_not_lt hm]
    exact .inl ⟨_, rfl, rfl⟩

theorem fold (h : m ≤ m') (level : Level) {operand operand' : Reading Measured}
    (ho : Extends operand operand') (steps : Nat) (left : Measured) :
    Extends (fold tokens m level operand steps left)
      (fold tokens m' level operand' steps left) := by
  induction steps generalizing left with
  | zero => exact refl _
  | succ steps ih =>
    refine bind (refl _) fun op? => ?_
    cases op? with
    | none => exact refl _
    | some op =>
      refine bind ho fun right => ?_
      refine bind (checkHeight h op _) fun _ => ?_
      exact ih _

theorem chain (h : m ≤ m') (level : Level) {operand operand' : Reading Measured}
    (ho : Extends operand operand') :
    Extends (chain tokens m level operand) (chain tokens m' level operand') :=
  bind ho fun left => fold h level ho _ left

theorem binary (h : m ≤ m') {operand operand' : Reading Measured}
    (ho : Extends operand operand') :
    Extends (binary tokens m operand) (binary tokens m' operand') :=
  chain h .equality <| chain h .comparison <| chain h .sum <| chain h .product ho

theorem primary (h : m ≤ m') {inner inner' : Reading Measured} (hi : Extends inner inner') :
    Extends (primary tokens m inner) (primary tokens m' inner') := by
  refine bind (refl _) fun t => ?_
  by_cases hl : t.kind.isLeaf
  · simp only [if_pos hl]
    exact refl _
  by_cases hp : t.kind = .leftParen
  · simp only [if_neg hl, if_pos hp]
    refine bind (refl _) fun _ => bind hi fun tree => bind (refl _) fun close => ?_
    by_cases hc : close.kind = .rightParen
    · simp only [if_pos hc]
      exact bind (refl _) fun _ => bind (checkHeight h t _) fun _ => refl _
    · simp only [if_neg hc]
      exact refl _
  · simp only [if_neg hl, if_neg hp]
    exact refl _

/-- The induction is on the room under the lower limit; where it runs out the lower limit stops the
reading, whatever room is left under the higher one. -/
theorem unary (h : m ≤ m') {room room' : Nat} (hr : room ≤ room') :
    Extends (unary tokens m room) (unary tokens m' room') := by
  induction room generalizing room' with
  | zero =>
    intro c
    left
    by_cases hm : c.depth < m
    · rw [Reading.unary, nested_of_lt hm]
      exact ⟨_, rfl, rfl⟩
    · rw [Reading.unary, nested_of_not_lt hm]
      exact ⟨_, rfl, rfl⟩
  | succ room ih =>
    obtain ⟨room', rfl⟩ : ∃ k, room' = k + 1 := ⟨room' - 1, by omega⟩
    have hu : Extends (Reading.unary tokens m room) (Reading.unary tokens m' room') :=
      ih (Nat.le_of_succ_le_succ hr)
    refine nested h (bind (refl _) fun op? => ?_)
    cases op? with
    | none => exact primary h (binary h hu)
    | some op => exact bind hu fun operand => bind (checkHeight h op _) fun _ => refl _

theorem whole (h : m ≤ m') : Extends (whole tokens m) (whole tokens m') :=
  bind (binary h (unary h h)) fun _ => refl _

end Extends

/-! ## Attempts under two limits -/

/-- The stream, read from its start, is reported to nest too deeply. -/
def NestsTooDeeply (tokens : List Token) (limit : Nat) : Prop :=
  ∃ a error, Expr.read tokens limit .start = .ok a ∧ a.error = some error ∧
    error.message = "Expression nests too deeply."

theorem read_mono {tokens : List Token} {m m' : Nat} (h : m ≤ m')
    (hn : ¬ NestsTooDeeply tokens m) :
    Expr.read tokens m' .start = Expr.read tokens m .start := by
  by_cases hne : tokens = []
  · simp [Expr.read, hne]
  rcases @Extends.whole tokens.toArray m m' h .start with hd | he
  · cases hr : whole tokens.toArray m .start with
    | ok e c =>
      rw [hr] at hd
      exact hd.elim
    | error e c =>
      rw [hr] at hd
      obtain ⟨error, rfl, hc⟩ := hd
      refine absurd ⟨_, error, read_of_error hne hr, rfl, ?_⟩ hn
      simp [ParseError.message, hc]
  · simp only [Expr.read, he]

variable {body : List Token} {last : Token}

theorem not_nestsTooDeeply (hbody : ∀ t ∈ body, t.kind ≠ .endOfInput)
    (hlast : last.kind = .endOfInput) {m : Nat} (h : (body ++ [last]).length ≤ m) :
    ¬ NestsTooDeeply (body ++ [last]) m := by
  rintro ⟨a, error, ha, he, hm⟩
  rcases read_outcome hbody hlast m with ⟨e, hr, -⟩ | ⟨t, cause, c, hr, ⟨-, hlt⟩ | hv⟩
  · rw [hr] at ha
    cases ha
    cases he
  · omega
  · rw [hr] at ha
    cases ha
    cases he
    have := Automaton.mem_of_verdict_eq_stuck hv
    simp [hm] at this

/-- A stream that has a tree is read, or it is reported to nest too deeply. -/
theorem read_or_nestsTooDeeply (hlast : last.kind = .endOfInput) {e : Expr} (hs : e.Spells body)
    (ht : e.IsStratified) (m : Nat) :
    Expr.read (body ++ [last]) m .start = .ok ⟨some e, none, ⟨body.length, 0⟩⟩ ∨
      NestsTooDeeply (body ++ [last]) m := by
  by_cases hn : NestsTooDeeply (body ++ [last]) m
  · exact .inr hn
  · left
    rw [← read_mono (Nat.le_max_left m e.height) hn]
    exact read_of_spells hlast hs ht (Nat.le_max_right m e.height)

/-- The limit is transparent: what is not too deep under one limit is the same under every higher
one, and nothing is too deep under a limit of as many nodes as there are tokens. So a stream that
has a tree is refused for its depth alone. -/
theorem limit_transparent (hbody : ∀ t ∈ body, t.kind ≠ .endOfInput)
    (hlast : last.kind = .endOfInput) :
    (∀ m, ∃ a, Expr.read (body ++ [last]) m .start = .ok a) ∧
    (∀ m m', m ≤ m' → ¬ NestsTooDeeply (body ++ [last]) m →
      Expr.read (body ++ [last]) m' .start = Expr.read (body ++ [last]) m .start) ∧
    (∀ m, (body ++ [last]).length ≤ m → ¬ NestsTooDeeply (body ++ [last]) m) ∧
    (∀ m, NestsTooDeeply (body ++ [last]) m ∨ Expr.read (body ++ [last]) m .start =
      Expr.read (body ++ [last]) (body ++ [last]).length .start) ∧
    ∀ (e : Expr) m a, e.Spells body → e.IsStratified → Expr.read (body ++ [last]) m .start = .ok a →
      a.expr = none → NestsTooDeeply (body ++ [last]) m := by
  refine ⟨fun m => ?_, fun m m' h hn => read_mono h hn, fun m => not_nestsTooDeeply hbody hlast,
    fun m => ?_, fun e m a hs ht ha hnone => ?_⟩
  · rcases read_outcome hbody hlast m with ⟨e, hr, -⟩ | ⟨t, cause, c, hr, -⟩
    · exact ⟨_, hr⟩
    · exact ⟨_, hr⟩
  · by_cases hn : NestsTooDeeply (body ++ [last]) m
    · exact .inl hn
    rcases Nat.le_total m (body ++ [last]).length with h | h
    · exact .inr (read_mono h hn).symm
    · exact .inr (read_mono h (not_nestsTooDeeply hbody hlast (Nat.le_refl _)))
  · refine (read_or_nestsTooDeeply hlast hs ht m).resolve_left fun hr => ?_
    rw [hr] at ha
    cases ha
    cases hnone

/-- `--1` is too deep under a limit of 2, which no limit from its four tokens on is. -/
theorem limit_transparent_negations :
    let minus : Token := ⟨1, .minus, "-", none⟩
    let one : Token := ⟨1, .number, "1", some (.number 1)⟩
    let tokens := [minus, minus, one] ++ [Token.endMarker 1]
    (∀ t ∈ [minus, minus, one], t.kind ≠ .endOfInput) ∧ (Token.endMarker 1).kind = .endOfInput ∧
      NestsTooDeeply tokens 2 ∧ ∀ m, 4 ≤ m → ¬ NestsTooDeeply tokens m := by
  intro minus one tokens
  have hbody : ∀ t ∈ [minus, minus, one], t.kind ≠ .endOfInput := by decide
  exact ⟨hbody, rfl, ⟨_, _, rfl, rfl, rfl⟩, (limit_transparent hbody rfl).2.2.1⟩

end Lox.Reading
