import Lox.Proofs.Reading.Resuming
import Lox.Proofs.Reading.Termination

/-!
Streams without an end marker. Past the end of such a stream the last token is seen again and again.
A reading still ends by itself (`wholeWithin_eq`), but never with a tree: either it stops with an
error, or it takes a prefix operator where there is none left to hand over.

The place of the cursor decides between the two. Wherever a reading starts, the cursor is at most
just behind the last token, should that be a prefix operator (`Reachable`). Behind an operand more
is known: there is a token left, unless the last one is such as an operand ends with (`Settled`).
So no binary operator is ever taken past the end, and a prefix operator only at the first place past
the end, which is the index of the fault (`readings_unended`).
-/

namespace Lox.Reading

variable {tokens : Array Token} {last : Token} {limit : Nat} {c : Cursor} {α β : Type}

/-! ## What is seen past the end -/

/-- A stream without an end marker, and its last token. -/
structure Unended (tokens : Array Token) (last : Token) : Prop where
  back?_eq : tokens.back? = some last
  kind_ne : ∀ t ∈ tokens, t.kind ≠ .endOfInput

namespace Unended

theorem last_mem (h : Unended tokens last) : last ∈ tokens :=
  Array.mem_of_back? h.back?_eq

theorem size_pos (h : Unended tokens last) : 0 < tokens.size :=
  Array.size_pos_of_mem h.last_mem

theorem seen_of_lt (hc : c.position < tokens.size) : seen tokens c = tokens[c.position] := by
  simp [seen, hc]

theorem seen_of_le (h : Unended tokens last) (hc : tokens.size ≤ c.position + 1) :
    seen tokens c = last := by
  by_cases hlt : c.position < tokens.size
  · have hlast : tokens[tokens.size - 1]? = some last := Array.back?_eq_getElem? ▸ h.back?_eq
    rw [seen, show c.position = tokens.size - 1 by omega, hlast]
    rfl
  · rw [seen, Array.getElem?_eq_none (Nat.le_of_not_lt hlt), h.back?_eq]
    rfl

theorem seen_mem (h : Unended tokens last) (c : Cursor) : seen tokens c ∈ tokens := by
  by_cases hlt : c.position < tokens.size
  · rw [seen_of_lt hlt]
    exact Array.getElem_mem hlt
  · rw [h.seen_of_le (by omega)]
    exact h.last_mem

theorem seen_kind_ne (h : Unended tokens last) (c : Cursor) :
    (seen tokens c).kind ≠ .endOfInput :=
  h.kind_ne _ (h.seen_mem c)

theorem passed_eq (h : Unended tokens last) (c : Cursor) : passed tokens c = forward c 1 :=
  if_neg (h.seen_kind_ne c)

end Unended

/-! ## Where the cursor may be -/

/-- The kinds of token that an operand may end with. -/
def EndsOperand (k : TokenKind) : Prop :=
  k.isLeaf ∨ k = .rightParen

theorem EndsOperand.level?_eq_none {k : TokenKind} (h : EndsOperand k) : k.level? = none := by
  rcases h with h | rfl
  · unfold TokenKind.isLeaf at h
    split at h <;> first | rfl | cases h
  · rfl

theorem EndsOperand.not_isUnary {k : TokenKind} (h : EndsOperand k) : ¬ k.isUnary := by
  rcases h with h | rfl
  · unfold TokenKind.isLeaf at h
    split at h <;> first | exact Bool.false_ne_true | cases h
  · exact Bool.false_ne_true

/-- A place where a reading may be: just behind the last token at most, if that is a prefix
operator. -/
def Reachable (tokens : Array Token) (last : Token) (c : Cursor) : Prop :=
  last.kind.isUnary → c.position ≤ tokens.size

/-- A place behind an operand: if the last token is not one that an operand ends with, there is at
least one left. -/
def Settled (tokens : Array Token) (last : Token) (c : Cursor) : Prop :=
  EndsOperand last.kind ∨ c.position < tokens.size

theorem Settled.reachable (h : Settled tokens last c) : Reachable tokens last c := by
  intro hunary
  rcases h with hend | hlt
  · exact absurd hunary hend.not_isUnary
  · exact Nat.le_of_lt hlt

/-- A token that is no prefix operator can be passed. -/
theorem Reachable.forward (h : Unended tokens last) (hc : Reachable tokens last c)
    (hseen : ¬ (seen tokens c).kind.isUnary) : Reachable tokens last (forward c 1) := by
  intro hunary
  have hle := hc hunary
  rcases Nat.lt_or_eq_of_le hle with hlt | heq
  · exact hlt
  · rw [h.seen_of_le (by omega)] at hseen
    exact absurd hunary hseen

theorem Settled.of_endsOperand (h : Unended tokens last)
    (hend : EndsOperand (seen tokens c).kind) : Settled tokens last (forward c 1) := by
  by_cases hlt : c.position + 1 < tokens.size
  · exact .inr hlt
  · rw [h.seen_of_le (Nat.le_of_not_lt hlt)] at hend
    exact .inl hend

/-! ## How readings fare -/

/-- A result is a place behind an operand, an error at a place where the next reading may be, or the
one possible fault. -/
inductive Fares (tokens : Array Token) (last : Token) :
    EStateM.Result (Halt ParseError) Cursor α → Prop
  | ok (a : α) {c : Cursor} (h : Settled tokens last c) : Fares tokens last (.ok a c)
  | error (e : ParseError) {c : Cursor} (h : Reachable tokens last c) :
    Fares tokens last (.error (.error e) c)
  | fault (c : Cursor) (h : last.kind.isUnary) :
    Fares tokens last (.error (.fault (.outOfRange tokens.size tokens.size)) c)

/-- From wherever the reading may start, it fares so. -/
def Stays (tokens : Array Token) (last : Token) (r : Reading α) : Prop :=
  ∀ c, Reachable tokens last c → Fares tokens last (r c)

theorem Fares.bind {r : Reading α} {f : α → Reading β} (hr : Fares tokens last (r c))
    (hf : ∀ a c', Settled tokens last c' → Fares tokens last (f a c')) :
    Fares tokens last ((r >>= f) c) := by
  generalize hrun : r c = x at hr
  cases hr with
  | ok a h =>
    rw [bind_of_ok hrun]
    exact hf a _ h
  | error e h =>
    rw [bind_of_error hrun]
    exact .error e h
  | fault c' h =>
    rw [bind_of_error hrun]
    exact .fault c' h

/-- The depth has no part in it. -/
theorem Fares.shallower {x : EStateM.Result (Halt ParseError) Cursor α} (h : Fares tokens last x) :
    Fares tokens last (shallower x) := by
  cases h with
  | ok a h => exact .ok a h
  | error e h => exact .error e h
  | fault c h => exact .fault _ h

theorem Stays.nested {body : Reading α} (hb : Stays tokens last body) :
    Stays tokens last (nested tokens limit body) := by
  intro c hc
  by_cases hl : c.depth < limit
  · rw [nested_of_lt hl]
    exact (hb (deeper c) hc).shallower
  · rw [nested_of_not_lt hl]
    exact .error _ hc

theorem capped_fares (hc : Settled tokens last c) (top : Token) (m : Measured) :
    Fares tokens last (capped limit top m c) := by
  by_cases hm : m.height ≤ limit
  · rw [capped_of_le hm]
    exact .ok m hc
  · rw [capped_of_lt (Nat.lt_of_not_le hm)]
    exact .error _ hc.reachable

/-! ## Operators -/

/-- Where there is a token left, an operator is taken or not. -/
theorem operator?_of_lt (h : Unended tokens last) (hlt : c.position < tokens.size)
    (wanted : TokenKind → Bool) :
    operator? tokens wanted c = .ok none c ∧ ¬ wanted (seen tokens c).kind ∨
      ∃ op, operator? tokens wanted c = .ok (some op) (forward c 1) := by
  by_cases hw : wanted (seen tokens c).kind
  · refine .inr ⟨tokens[c.position], ?_⟩
    simp [operator?, hw, hlt, h.passed_eq]
  · exact .inl ⟨by rw [operator?, if_neg hw], hw⟩

theorem operator?_of_settled (h : Unended tokens last) (hc : Settled tokens last c)
    (level : Level) :
    operator? tokens (fun k => k.level? = some level) c = .ok none c ∨
      ∃ op, operator? tokens (fun k => k.level? = some level) c = .ok (some op) (forward c 1) ∧
        Reachable tokens last (forward c 1) := by
  by_cases hlt : c.position < tokens.size
  · rcases operator?_of_lt h hlt fun k => k.level? = some level with ⟨hnone, -⟩ | ⟨op, hop⟩
    · exact .inl hnone
    · exact .inr ⟨op, hop, fun _ => hlt⟩
  · have hend : EndsOperand last.kind := hc.resolve_right hlt
    refine .inl ?_
    rw [operator?, h.seen_of_le (by omega), hend.level?_eq_none]
    rfl

/-- A prefix operator that is taken past the end is the last token, one more time. -/
theorem unary_operator?_of_reachable (h : Unended tokens last) (hc : Reachable tokens last c) :
    operator? tokens TokenKind.isUnary c = .ok none c ∧ ¬ (seen tokens c).kind.isUnary ∨
      (∃ op, operator? tokens TokenKind.isUnary c = .ok (some op) (forward c 1) ∧
        Reachable tokens last (forward c 1)) ∨
      last.kind.isUnary ∧ operator? tokens TokenKind.isUnary c =
        .error (.fault (.outOfRange tokens.size tokens.size)) (forward c 1) := by
  by_cases hlt : c.position < tokens.size
  · rcases operator?_of_lt h hlt TokenKind.isUnary with hnone | ⟨op, hop⟩
    · exact .inl hnone
    · exact .inr (.inl ⟨op, hop, fun _ => hlt⟩)
  · have hseen : seen tokens c = last := h.seen_of_le (by omega)
    by_cases hunary : last.kind.isUnary
    · have hposition : c.position = tokens.size := by
        have hle := hc hunary
        omega
      refine .inr (.inr ⟨hunary, ?_⟩)
      simp [operator?, hseen, hunary, hposition, h.passed_eq]
    · exact .inl ⟨by rw [operator?, hseen, if_neg hunary], hseen ▸ hunary⟩

/-! ## Levels and operands -/

section
variable {operand : Reading Measured}

/-- The operator that a step takes is in the stream, and the operand behind it ends where the fold
can go on. -/
theorem fold_fares (h : Unended tokens last) (ho : Stays tokens last operand) (level : Level)
    (steps : Nat) (left : Measured) (hc : Settled tokens last c) :
    Fares tokens last (fold tokens limit level operand steps left c) := by
  induction steps generalizing left c with
  | zero => exact .ok left hc
  | succ steps ih =>
    rw [fold]
    rcases operator?_of_settled h hc level with hnone | ⟨op, hop, hreach⟩
    · rw [bind_of_ok hnone]
      exact .ok left hc
    · rw [bind_of_ok hop]
      show Fares tokens last (foldRight tokens limit level operand steps left op (forward c 1))
      rw [foldRight_eq]
      refine (ho _ hreach).bind fun right c' hc' => ?_
      by_cases hh : max left.height right.height + 1 ≤ limit
      · rw [joined_of_le hh]
        exact ih _ hc'
      · rw [joined_of_lt (Nat.lt_of_not_le hh)]
        exact .error _ hc'.reachable

theorem Stays.chain (h : Unended tokens last) (level : Level) (ho : Stays tokens last operand) :
    Stays tokens last (chain tokens limit level operand) :=
  fun c hc => (ho c hc).bind fun left _ hc' => fold_fares h ho level _ left hc'

theorem Stays.binary (h : Unended tokens last) (ho : Stays tokens last operand) :
    Stays tokens last (binary tokens limit operand) :=
  .chain h .equality <| .chain h .comparison <| .chain h .sum <| .chain h .product ho

end

theorem closing_fares (h : Unended tokens last) (hc : Settled tokens last c) (opening : Token)
    (tree : Measured) : Fares tokens last (closing tokens limit opening tree c) := by
  show Fares tokens last ((if (seen tokens c).kind = .rightParen then _ else _ : Reading _) c)
  split
  · next hclose =>
    have hbehind : Settled tokens last (forward c 1) := .of_endsOperand h (.inr hclose)
    show Fares tokens last (capped limit opening _ (passed tokens c))
    rw [h.passed_eq]
    exact capped_fares hbehind opening _
  · exact .error _ hc.reachable

theorem primary_fares (h : Unended tokens last) {inner : Reading Measured}
    (hi : Stays tokens last inner) (hc : Reachable tokens last c)
    (hseen : ¬ (seen tokens c).kind.isUnary) :
    Fares tokens last (primary tokens limit inner c) := by
  show Fares tokens last ((if (seen tokens c).kind.isLeaf then _ else _ : Reading _) c)
  split
  · next hleaf =>
    show Fares tokens last (.ok _ (passed tokens c))
    rw [h.passed_eq]
    exact .ok _ (.of_endsOperand h (.inl hleaf))
  · split
    · show Fares tokens last ((inner >>= closing tokens limit (seen tokens c)) (passed tokens c))
      rw [h.passed_eq]
      exact (hi _ (hc.forward h hseen)).bind fun tree _ hc' => closing_fares h hc' _ tree
    · exact .error _ hc

theorem unary_stays (h : Unended tokens last) (room : Nat) :
    Stays tokens last (unary tokens limit room) := by
  induction room with
  | zero => exact Stays.nested fun _ hc => .error _ hc
  | succ room ih =>
    rw [unary_succ]
    refine Stays.nested fun c hc => ?_
    rw [operandBody]
    rcases unary_operator?_of_reachable h hc with
      ⟨hnone, hseen⟩ | ⟨op, hop, hreach⟩ | ⟨hunary, hfault⟩
    · rw [bind_of_ok hnone]
      exact primary_fares h (ih.binary h) hc hseen
    · rw [bind_of_ok hop]
      exact (ih _ hreach).bind fun operand _ hc' => capped_fares hc' op _
    · rw [bind_of_error hfault]
      exact .fault _ hunary

/-! ## Whole readings, one after the other -/

/-- A reading of a stream without an end marker never finds the end. -/
theorem whole_unended (h : Unended tokens last) (limit : Nat) (hc : Reachable tokens last c) :
    (∃ e c', whole tokens limit c = .error (.error e) c' ∧ Reachable tokens last c') ∨
      last.kind.isUnary ∧
        ∃ c', whole tokens limit c = .error (.fault (.outOfRange tokens.size tokens.size)) c' := by
  have hexpr : Fares tokens last (expression tokens limit c) := (unary_stays h limit).binary h c hc
  generalize hrun : expression tokens limit c = x at hexpr
  rw [whole]
  cases hexpr with
  | @ok tree c' hc' =>
    rw [bind_of_ok hrun]
    refine .inl ⟨.atToken (seen tokens c') .expectEnd, c', ?_, hc'.reachable⟩
    show (if (seen tokens c').kind = .endOfInput then _ else _ : Reading Expr) c' = _
    rw [if_neg (h.seen_kind_ne c')]
    rfl
  | error e hc' => exact .inl ⟨e, _, bind_of_error hrun, hc'⟩
  | fault c' hunary => exact .inr ⟨hunary, c', bind_of_error hrun⟩

end Lox.Reading

namespace Lox

/-! ## Attempts one after the other -/

/-- The attempt has come to an error, and to no tree. -/
structure Attempt.Fails (a : Attempt) : Prop where
  expr_eq_none : a.expr = none
  exists_error : ∃ e, a.error = some e

namespace Reading

variable {tokens : List Token} {last : Token} {limit : Nat} {c : Cursor}

theorem unended_of_ne_nil (hne : tokens ≠ []) (hend : ∀ t ∈ tokens, t.kind ≠ .endOfInput) :
    ∃ body last, tokens = body ++ [last] ∧ Unended tokens.toArray last := by
  refine ⟨tokens.dropLast, tokens.getLast hne, (List.dropLast_concat_getLast hne).symm, ?_, ?_⟩
  · rw [List.back?_toArray, List.getLast?_eq_some_getLast hne]
  · simpa using hend

/-- One attempt leads on to the next one, or there is none after it. -/
theorem read_unended (h : Unended tokens.toArray last) (limit : Nat)
    (hc : Reachable tokens.toArray last c) :
    (∃ a, Expr.read tokens limit c = .ok a ∧ a.Fails ∧ Reachable tokens.toArray last a.cursor) ∨
      last.kind.isUnary ∧
        Expr.read tokens limit c = .error (.outOfRange tokens.length tokens.length) := by
  have hne : tokens ≠ [] := by
    rintro rfl
    exact absurd h.size_pos (Nat.not_lt_zero _)
  rcases whole_unended h limit hc with ⟨e, c', hrun, hc'⟩ | ⟨hunary, c', hrun⟩
  · exact .inl ⟨_, read_of_error hne hrun, ⟨rfl, e, rfl⟩, hc'⟩
  · exact .inr ⟨hunary, by simp [Expr.read, hne, hrun]⟩

/-- So many attempts, or as many as there are before the one that faults. -/
theorem readings_of_reachable (h : Unended tokens.toArray last) (limit calls : Nat)
    (hc : Reachable tokens.toArray last c) : ∃ attempts : List Attempt,
      Expr.readings tokens limit attempts.length c = .ok attempts ∧
      (∀ a ∈ attempts, a.Fails) ∧
      (attempts.length = calls ∨ attempts.length < calls ∧ last.kind.isUnary ∧
        Expr.readings tokens limit (attempts.length + 1) c =
          .error (.outOfRange tokens.length tokens.length)) := by
  induction calls generalizing c with
  | zero => exact ⟨[], rfl, by simp, .inl rfl⟩
  | succ calls ih =>
    rcases read_unended h limit hc with ⟨a, hread, hfails, hc'⟩ | ⟨hunary, hfault⟩
    · obtain ⟨attempts, hreads, hall, hlength⟩ := ih hc'
      -- the attempts that follow do so from the cursor of the first one
      have hfirst (n : Nat) : Expr.readings tokens limit (n + 1) c =
          (Expr.readings tokens limit n a.cursor).map (a :: ·) := by
        rw [Expr.readings, hread]
        rfl
      refine ⟨a :: attempts, ?_, List.forall_mem_cons.mpr ⟨hfails, hall⟩, ?_⟩
      · rw [List.length_cons, hfirst, hreads]
        rfl
      · rw [List.length_cons, hfirst]
        rcases hlength with hlength | ⟨hlt, hunary, hfault⟩
        · exact .inl (congrArg (· + 1) hlength)
        · exact .inr ⟨Nat.succ_lt_succ hlt, hunary, by rw [hfault]; rfl⟩
    · refine ⟨[], rfl, by simp, .inr ⟨Nat.succ_pos calls, hunary, ?_⟩⟩
      show Expr.readings tokens limit 1 c = _
      rw [Expr.readings, hfault]
      rfl

/-- Expressions can be read of a stream without an end marker again and again, but there is none.
Every reading ends by itself: more room for nestings and more steps for folds than it is given make
no difference to it. Each attempt comes to an error and to no tree, up to one that faults, if there
is one. That one takes a token just behind the end of the stream, where the last token is `-` or
`!`. -/
theorem readings_unended (hne : tokens ≠ []) (hend : ∀ t ∈ tokens, t.kind ≠ .endOfInput)
    (limit calls : Nat) :
    (∀ room bound, limit ≤ room → tokens.length < bound →
      wholeWithin tokens.toArray limit bound room = whole tokens.toArray limit) ∧
    ∃ attempts : List Attempt,
      Expr.readings tokens limit attempts.length .start = .ok attempts ∧
      (∀ a ∈ attempts, a.Fails) ∧
      (attempts.length = calls ∨ attempts.length < calls ∧
        Expr.readings tokens limit (attempts.length + 1) .start =
          .error (.outOfRange tokens.length tokens.length) ∧
        ∃ body last, tokens = body ++ [last] ∧ (last.kind = .minus ∨ last.kind = .bang)) := by
  refine ⟨fun room bound hroom hbound => wholeWithin_eq hroom hbound, ?_⟩
  obtain ⟨body, last, hsplit, h⟩ := unended_of_ne_nil hne hend
  obtain ⟨attempts, hreads, hall, hlength⟩ :=
    readings_of_reachable h limit calls (c := .start) fun _ => Nat.zero_le _
  refine ⟨attempts, hreads, hall, ?_⟩
  refine hlength.imp_right fun ⟨hlt, hunary, hfault⟩ => ⟨hlt, hfault, body, last, hsplit, ?_⟩
  exact ((TokenKind.isUnary_iff _).mp hunary).symm

/-- Of `--`, under a limit of one nesting, two attempts fail, and the third one faults. -/
theorem readings_unended_negations :
    let minus : Token := ⟨1, .minus, "-", none⟩
    [minus, minus] ≠ [] ∧ (∀ t ∈ [minus, minus], t.kind ≠ .endOfInput) ∧
    (∀ room bound, 1 ≤ room → [minus, minus].length < bound →
      wholeWithin [minus, minus].toArray 1 bound room = whole [minus, minus].toArray 1) ∧
    ∃ attempts : List Attempt, attempts.length = 2 ∧
      Expr.readings [minus, minus] 1 attempts.length .start = .ok attempts ∧
      (∀ a ∈ attempts, a.Fails) ∧
      Expr.readings [minus, minus] 1 3 .start = .error (.outOfRange 2 2) := by
  intro minus
  have hne : [minus, minus] ≠ [] := List.cons_ne_nil _ _
  have hend : ∀ t ∈ [minus, minus], t.kind ≠ .endOfInput := by decide
  obtain ⟨hends, attempts, hreads, hall, hlength⟩ := readings_unended hne hend 1 3
  have hthird : Expr.readings [minus, minus] 1 3 .start = .error (.outOfRange 2 2) := rfl
  have hbefore : ∀ n < 3, (Expr.readings [minus, minus] 1 n .start).isOk := by decide +kernel
  have htwo : attempts.length = 2 := by
    rcases hlength with hthree | ⟨hlt, hfault, -⟩
    · rw [hthree, hthird] at hreads
      cases hreads
    · have hnot : ¬ attempts.length + 1 < 3 := by
        intro hlt'
        have hok := hbefore _ hlt'
        rw [hfault] at hok
        exact Bool.false_ne_true hok
      omega
  exact ⟨hne, hend, hends, attempts, htwo, hreads, hall, hthird⟩

end Reading

end Lox
