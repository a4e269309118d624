import Lox.Proofs.Expr.Spelling

/-!
The syntax of expressions as a flat automaton with one counter. It knows whether an operand is
expected next and how many groups are open, and it is stuck at the first token that fits neither.
It runs over the span of a tree as over a single operand (`verdict_spells`).
-/

namespace Lox.Automaton

structure State where
  operandExpected : Bool
  openGroups : Nat
deriving DecidableEq, Repr

inductive Verdict
  | pending (s : State)
  | accepted
  | stuck (t : Token) (message : String)

def start : State :=
  ⟨true, 0⟩

def step (s : State) (t : Token) : Verdict :=
  match s.operandExpected, t.kind with
  | true, .bang | true, .minus => .pending s
  | true, .leftParen => .pending ⟨true, s.openGroups + 1⟩
  | true, .number | true, .string | true, .keyword .trueWord | true, .keyword .falseWord
  | true, .keyword .nilWord => .pending ⟨false, s.openGroups⟩
  | true, _ => .stuck t "Expect expression."
  | false, .equalEqual | false, .bangEqual
  | false, .less | false, .lessEqual | false, .greater | false, .greaterEqual
  | false, .plus | false, .minus | false, .star | false, .slash => .pending ⟨true, s.openGroups⟩
  | false, kind =>
    match s.openGroups with
    | 0 => if kind = .endOfInput then .accepted else .stuck t "Expect end of expression."
    | n + 1 =>
      if kind = .rightParen then .pending ⟨false, n⟩ else .stuck t "Expect ')' after expression."

/-- Nothing follows a verdict. -/
def Verdict.next : Verdict → Token → Verdict
  | pending s, t => step s t
  | accepted, _ => accepted
  | stuck u message, _ => stuck u message

def verdict (s : State) (tokens : List Token) : Verdict :=
  tokens.foldl Verdict.next (.pending s)

/-! ## Single steps -/

variable {t : Token} {n : Nat}

theorem step_unary (h : t.kind = .bang ∨ t.kind = .minus) (s : State)
    (hs : s.operandExpected = true) : step s t = .pending s := by
  rcases h with h | h <;> simp [step, hs, h]

theorem step_opening (h : t.kind = .leftParen) (n : Nat) :
    step ⟨true, n⟩ t = .pending ⟨true, n + 1⟩ := by
  simp [step, h]

theorem step_leaf
    (h : t.kind ∈ [.number, .string, .keyword .trueWord, .keyword .falseWord, .keyword .nilWord])
    (n : Nat) : step ⟨true, n⟩ t = .pending ⟨false, n⟩ := by
  simp only [List.mem_cons, List.not_mem_nil, or_false] at h
  rcases h with h | h | h | h | h <;> simp [step, h]

/-- Where an operand is expected, these are all the tokens that fit. -/
theorem step_other (hp : ¬ (t.kind = .bang ∨ t.kind = .minus)) (ho : t.kind ≠ .leftParen)
    (hl : t.kind ∉ [.number, .string, .keyword .trueWord, .keyword .falseWord, .keyword .nilWord])
    (n : Nat) : step ⟨true, n⟩ t = .stuck t "Expect expression." := by
  unfold step
  split <;> simp_all

theorem step_operator {m : Nat} (h : t.kind.tightness? = some m) (n : Nat) :
    step ⟨false, n⟩ t = .pending ⟨true, n⟩ := by
  unfold step
  split <;> simp_all [TokenKind.tightness?]

theorem step_after (h : t.kind.tightness? = none) (n : Nat) : step ⟨false, n⟩ t =
    match n with
    | 0 => if t.kind = .endOfInput then .accepted else .stuck t "Expect end of expression."
    | n + 1 =>
      if t.kind = .rightParen then .pending ⟨false, n⟩
      else .stuck t "Expect ')' after expression." := by
  unfold step
  split <;> simp_all [TokenKind.tightness?]

/-! ## Runs -/

theorem foldl_stuck (tokens : List Token) (t : Token) (message : String) :
    tokens.foldl Verdict.next (.stuck t message) = .stuck t message := by
  induction tokens with
  | nil => rfl
  | cons u rest ih => exact ih

theorem foldl_accepted (tokens : List Token) :
    tokens.foldl Verdict.next .accepted = .accepted := by
  induction tokens with
  | nil => rfl
  | cons u rest ih => exact ih

theorem verdict_of_pending {s s' : State} (h : step s t = .pending s') (rest : List Token) :
    verdict s (t :: rest) = verdict s' rest := by
  simp [verdict, Verdict.next, h]

theorem verdict_of_stuck {s : State} {u : Token} {message : String}
    (h : step s t = .stuck u message) (rest : List Token) :
    verdict s (t :: rest) = .stuck u message := by
  simp [verdict, Verdict.next, h, foldl_stuck]

theorem verdict_of_accepted {s : State} (h : step s t = .accepted) (rest : List Token) :
    verdict s (t :: rest) = .accepted := by
  simp [verdict, Verdict.next, h, foldl_accepted]

/-- The automaton complains in one of three ways. -/
theorem mem_of_step_eq_stuck {s : State} {u : Token} {message : String}
    (h : step s t = .stuck u message) : message ∈ ["Expect expression.",
      "Expect ')' after expression.", "Expect end of expression."] := by
  unfold step at h
  split at h
  all_goals try cases h
  · simp
  · split at h <;> split at h <;> cases h <;> simp

theorem mem_of_verdict_eq_stuck {s : State} {tokens : List Token} {u : Token} {message : String}
    (h : verdict s tokens = .stuck u message) : message ∈ ["Expect expression.",
      "Expect ')' after expression.", "Expect end of expression."] := by
  induction tokens generalizing s with
  | nil => cases h
  | cons t rest ih =>
    cases hs : step s t with
    | pending s' => exact ih ((verdict_of_pending hs rest).symm.trans h)
    | accepted =>
      rw [verdict_of_accepted hs rest] at h
      cases h
    | stuck u' message' =>
      rw [verdict_of_stuck hs rest] at h
      cases h
      exact mem_of_step_eq_stuck hs

/-- A tree of the grammar is passed like one operand; groups opened inside are closed inside. -/
theorem verdict_spells {e : Expr} {span : List Token} (h : e.Spells span) (hs : e.IsStratified)
    (n : Nat) (rest : List Token) : verdict ⟨true, n⟩ (span ++ rest) = verdict ⟨false, n⟩ rest := by
  induction h generalizing n rest with
  | literal t => exact verdict_of_pending (step_leaf hs n) rest
  | unary op h ih =>
    obtain ⟨hop, -, hs⟩ := hs
    rw [List.cons_append, verdict_of_pending (step_unary hop _ rfl), ih hs]
  | binary op hl hr ihl ihr =>
    obtain ⟨m, hop, -, -, hsl, hsr⟩ := hs
    rw [List.append_assoc, ihl hsl, List.cons_append, verdict_of_pending (step_operator hop n),
      ihr hsr]
  | grouping ho hc h ih =>
    rw [List.cons_append, verdict_of_pending (step_opening ho n), List.append_assoc, ih hs,
      List.singleton_append]
    -- one group more is open than before the tree, and its parenthesis closes it
    refine verdict_of_pending ?_ rest
    rw [step_after (by simp [hc, TokenKind.tightness?])]
    exact if_pos hc

end Lox.Automaton
