import Lox.Proofs.Expr.Automaton
import Lox.Proofs.Reading.Steps

/-!
What a reading leads to, on any stream with an end marker ahead and under any limit. If it succeeds
it has passed the span of a stratified tree and knows its height; if it fails, then at the token at
which the automaton is stuck, or else because the limit is below what lies ahead. One statement
holds for every level (`Meets`) and is carried from the tighter one to the looser one.
-/

namespace Lox.Reading

open Automaton (verdict verdict_of_pending verdict_of_stuck verdict_spells)

/-- No operator follows that binds at least `n` tight. -/
def StopsAt (n : Nat) (rest : List Token) : Prop :=
  ∀ t ∈ rest.head?, ∀ m, t.kind.tightness? = some m → m < n

theorem StopsAt.tightness?_eq_none {t : Token} {rest : List Token} (h : StopsAt 0 (t :: rest)) :
    t.kind.tightness? = none := by
  cases hm : t.kind.tightness? with
  | none => rfl
  | some m => exact absurd (h t rfl m hm) (Nat.not_lt_zero m)

theorem stopsAt_four (rest : List Token) : StopsAt 4 rest :=
  fun _ _ _ hm => TokenKind.tightness?_lt hm

theorem StopsAt.of_level?_ne {t : Token} {rest : List Token} {level : Level}
    (h : StopsAt (level.tightness + 1) (t :: rest)) (ht : t.kind.level? ≠ some level) :
    StopsAt level.tightness (t :: rest) := by
  intro u hu m hm
  refine Nat.lt_of_le_of_ne (Nat.le_of_lt_succ (h u hu m hm)) ?_
  rintro rfl
  cases hu
  exact ht ((TokenKind.level?_eq_some_iff _ _).mpr hm)

section
variable (tokens : Array Token) (limit : Nat)

/-- A tree that has been read: it spells the span behind the cursor, binds at least `n` tight, and
is as high as it is said to be. -/
structure Reads (n : Nat) (c : Cursor) (span : List Token) (m : Measured) : Prop where
  ahead_eq : ahead tokens c = span ++ ahead tokens (forward c span.length)
  spells : m.expr.Spells span
  stratified : m.expr.IsStratified
  le_tightness : n ≤ m.expr.tightness
  height_eq : m.height = m.expr.height

/-- The error of a reading: the limit is below `bound`, or the automaton is stuck at the token. -/
def Refusal (bound : Nat) (c : Cursor) (e : Halt ParseError) : Prop :=
  ∃ t cause, e = .error (.atToken t cause) ∧
    (cause = .nestsTooDeeply ∧ limit < bound ∨
      ∀ k, verdict ⟨true, k⟩ (ahead tokens c) = .stuck t (ParseError.atToken t cause).message)

def Outcome (n bound : Nat) (c : Cursor) : EStateM.Result (Halt ParseError) Cursor Measured → Prop
  | .ok m c' => ∃ span, c' = forward c span.length ∧ Reads tokens n c span m ∧
    m.height ≤ limit ∧ StopsAt n (ahead tokens c')
  | .error e _ => Refusal tokens limit bound c e

/-- Wherever the reading starts at the given depth, it leads to an outcome. A limit that has room
for the depth and all that is ahead is never exceeded. -/
def Meets (r : Reading Measured) (n depth : Nat) : Prop :=
  ∀ c, c.depth = depth → EndAhead tokens c →
    Outcome tokens limit n (depth + (ahead tokens c).length) c (r c)

end

variable {tokens : Array Token} {limit : Nat} {c : Cursor} {t : Token} {rest : List Token}

theorem Reads.endAhead {n : Nat} {span : List Token} {m : Measured}
    (h : Reads tokens n c span m) (hc : EndAhead tokens c) :
    EndAhead tokens (forward c span.length) :=
  hc.forward h.ahead_eq (h.spells.kind_ne_end h.stratified)

theorem Reads.length_add {n : Nat} {span : List Token} {m : Measured}
    (h : Reads tokens n c span m) :
    (ahead tokens c).length = span.length + (ahead tokens (forward c span.length)).length := by
  have hlen := congrArg List.length h.ahead_eq
  rwa [List.length_append] at hlen

theorem Reads.height_le_length {n : Nat} {span : List Token} {m : Measured}
    (h : Reads tokens n c span m) : m.height ≤ span.length :=
  h.height_eq ▸ h.spells.height_le_length

/-- The automaton passes what has been read. -/
theorem Reads.verdict_eq {n : Nat} {span : List Token} {m : Measured}
    (h : Reads tokens n c span m) (k : Nat) : verdict ⟨true, k⟩ (ahead tokens c) =
      verdict ⟨false, k⟩ (ahead tokens (forward c span.length)) := by
  calc verdict ⟨true, k⟩ (ahead tokens c)
      = verdict ⟨true, k⟩ (span ++ ahead tokens (forward c span.length)) := by rw [← h.ahead_eq]
    _ = verdict ⟨false, k⟩ (ahead tokens (forward c span.length)) :=
        verdict_spells h.spells h.stratified k _

theorem Reads.weaken {m n : Nat} {span : List Token} {tree : Measured}
    (h : Reads tokens n c span tree) (hmn : m ≤ n) : Reads tokens m c span tree :=
  { h with le_tightness := Nat.le_trans hmn h.le_tightness }

/-- An error further on is the error here, if the automaton gets there from here. -/
theorem Refusal.of_later {bound bound' : Nat} {c c' : Cursor} {e : Halt ParseError}
    (h : Refusal tokens limit bound' c' e) (hb : bound' ≤ bound)
    (hr : ∀ k, ∃ k', verdict ⟨true, k⟩ (ahead tokens c) = verdict ⟨true, k'⟩ (ahead tokens c')) :
    Refusal tokens limit bound c e := by
  obtain ⟨t, cause, rfl, ⟨rfl, hl⟩ | hs⟩ := h
  · exact ⟨t, _, rfl, .inl ⟨rfl, by omega⟩⟩
  · refine ⟨t, cause, rfl, .inr fun k => ?_⟩
    obtain ⟨k', hk⟩ := hr k
    rw [hk, hs k']

theorem Refusal.tooDeep {bound : Nat} (h : limit < bound) (t : Token) (c : Cursor) :
    Refusal tokens limit bound c (.error (.atToken t .nestsTooDeeply)) :=
  ⟨t, _, rfl, .inl ⟨rfl, h⟩⟩

/-- A reading that begins with another one fails where that one does, and else goes on behind the
tree it has found. -/
theorem Outcome.bind {x : Reading Measured} {f : Measured → Reading Measured} {c c' : Cursor}
    {n n' bound bound' : Nat} (hx : Outcome tokens limit n' bound' c' (x c'))
    (hb : bound' ≤ bound)
    (hv : ∀ k, ∃ k', verdict ⟨true, k⟩ (ahead tokens c) = verdict ⟨true, k'⟩ (ahead tokens c'))
    (hf : ∀ span m, Reads tokens n' c' span m → m.height ≤ limit →
      StopsAt n' (ahead tokens (forward c' span.length)) →
      Outcome tokens limit n bound c (f m (forward c' span.length))) :
    Outcome tokens limit n bound c ((x >>= f) c') := by
  cases hr : x c' with
  | error e c'' =>
    rw [hr] at hx
    rw [bind_of_error hr]
    exact Refusal.of_later hx hb hv
  | ok m c'' =>
    rw [hr] at hx
    obtain ⟨span, rfl, hreads, hh, hstop⟩ := hx
    rw [bind_of_ok hr]
    exact hf span m hreads hh hstop

/-- A tree that has been read is handed over, or it is higher than the limit and there are at least
as many tokens ahead as it has nodes on its way down. -/
theorem Reads.capped_outcome {n bound : Nat} {span : List Token} {m : Measured}
    (h : Reads tokens n c span m) (hs : StopsAt n (ahead tokens (forward c span.length)))
    (hb : (ahead tokens c).length ≤ bound) (top : Token) :
    Outcome tokens limit n bound c (capped limit top m (forward c span.length)) := by
  by_cases hh : m.height ≤ limit
  · rw [capped_of_le hh]
    exact ⟨span, rfl, h, hh, hs⟩
  · rw [capped_of_lt (Nat.lt_of_not_le hh)]
    have hheight := h.height_le_length
    have hlength := h.length_add
    exact Refusal.tooDeep (by omega) top c

/-! ## Binary operators -/

section
variable {level : Level} {operand : Reading Measured} {depth : Nat}

/-- The tree of an operator, its left operand and the right one that has been read behind it. -/
theorem Reads.binary {leftSpan rightSpan : List Token} {left right : Measured} {op : Token}
    (hl : Reads tokens level.tightness c leftSpan left)
    (ha : ahead tokens (forward c leftSpan.length) = op :: rest)
    (hop : op.kind.level? = some level)
    (hr : Reads tokens (level.tightness + 1) (forward (forward c leftSpan.length) 1)
      rightSpan right) :
    Reads tokens level.tightness c (leftSpan ++ op :: rightSpan)
      ⟨.binary left.expr op right.expr, max left.height right.height + 1⟩ := by
  have hop' := (TokenKind.level?_eq_some_iff _ _).mp hop
  have hrest := ahead_forward_one ha
  refine ⟨?_, hl.spells.binary op hr.spells, ?_, ?_, ?_⟩
  · calc ahead tokens c
        = leftSpan ++ op :: rest := by rw [hl.ahead_eq, ha]
      _ = leftSpan ++ op :: (rightSpan ++ ahead tokens
            (forward (forward (forward c leftSpan.length) 1) rightSpan.length)) := by
          rw [← hr.ahead_eq, hrest]
      _ = _ := by rw [forward_cons op, forward_append, List.append_assoc, List.cons_append]
  · exact ⟨_, hop', hl.le_tightness, hr.le_tightness, hl.stratified, hr.stratified⟩
  · simp [Expr.tightness, hop']
  · simp [Expr.height, hl.height_eq, hr.height_eq]

/-- Behind an operator of the level stands the right operand, and the fold goes on with a tree that
takes in both. -/
theorem foldRight_outcome (h : Meets tokens limit operand (level.tightness + 1) depth)
    (hc : EndAhead tokens c) (hd : c.depth = depth) {steps : Nat} {span : List Token}
    {left : Measured} {op : Token} (hl : Reads tokens level.tightness c span left)
    (ha : ahead tokens (forward c span.length) = op :: rest) (hop : op.kind.level? = some level)
    (hsteps : rest.length < steps)
    (hnext : ∀ span' m, Reads tokens level.tightness c span' m → m.height ≤ limit →
      StopsAt (level.tightness + 1) (ahead tokens (forward c span'.length)) →
      (ahead tokens (forward c span'.length)).length < steps →
      Outcome tokens limit level.tightness (depth + (ahead tokens c).length) c
        (fold tokens limit level operand steps m (forward c span'.length))) :
    Outcome tokens limit level.tightness (depth + (ahead tokens c).length) c
      (foldRight tokens limit level operand steps left op
        (forward (forward c span.length) 1)) := by
  have hop' := (TokenKind.level?_eq_some_iff _ _).mp hop
  have hk : op.kind ≠ .endOfInput := by
    intro hk
    simp [hk, TokenKind.level?] at hop
  have hrest := ahead_forward_one ha
  have hlength : (ahead tokens c).length = span.length + (rest.length + 1) := by
    rw [hl.length_add, ha, List.length_cons]
  have hright := h (forward (forward c span.length) 1) hd ((hl.endAhead hc).forward_one ha hk)
  refine Outcome.bind hright (by rw [hrest]; omega) (fun k => ⟨k, ?_⟩)
    fun rightSpan right hreads _ hstop => ?_
  · rw [hl.verdict_eq, ha, verdict_of_pending (Automaton.step_operator hop' k), hrest]
  · have hbinary := hl.binary ha hop hreads
    have hlength' := hreads.length_add
    rw [hrest] at hlength'
    rw [forward_cons op, forward_append] at hstop hlength' ⊢
    by_cases hh : max left.height right.height + 1 ≤ limit
    · rw [bind_of_ok (checkHeight_of_le hh op _)]
      exact hnext _ _ hbinary hh hstop (by omega)
    · -- a tree that is too high is still not higher than its span is long
      rw [bind_of_error (checkHeight_of_lt (Nat.lt_of_not_le hh) op _)]
      have hheight : max left.height right.height + 1 ≤ _ := hbinary.height_le_length
      have htotal := hbinary.length_add
      exact Refusal.tooDeep (by omega) op c

/-- The fold from any point on at which its left operand has been read. The induction is on the
steps; there are always more of them than tokens ahead. -/
theorem fold_outcome (h : Meets tokens limit operand (level.tightness + 1) depth)
    (hc : EndAhead tokens c) (hd : c.depth = depth) {steps : Nat} {span : List Token}
    {left : Measured} (hl : Reads tokens level.tightness c span left) (hh : left.height ≤ limit)
    (hs : StopsAt (level.tightness + 1) (ahead tokens (forward c span.length)))
    (hsteps : (ahead tokens (forward c span.length)).length < steps) :
    Outcome tokens limit level.tightness (depth + (ahead tokens c).length) c
      (fold tokens limit level operand steps left (forward c span.length)) := by
  induction steps generalizing span left with
  | zero => exact absurd hsteps (Nat.not_lt_zero _)
  | succ steps ih =>
    obtain ⟨t, rest, ha⟩ := (hl.endAhead hc).exists_cons
    by_cases ht : t.kind.level? = some level
    · rw [fold_of_operator ha ht]
      rw [ha, List.length_cons] at hsteps
      exact foldRight_outcome h hc hd hl ha ht (Nat.lt_of_succ_lt_succ hsteps)
        fun _ _ => ih
    · rw [fold_of_other ha ht]
      refine ⟨span, rfl, hl, hh, ?_⟩
      rw [ha] at hs ⊢
      exact hs.of_level?_ne ht

theorem Meets.chain (level : Level)
    (h : Meets tokens limit operand (level.tightness + 1) depth) :
    Meets tokens limit (chain tokens limit level operand) level.tightness depth := by
  intro c hd hc
  refine Outcome.bind (h c hd hc) (Nat.le_refl _) (fun k => ⟨k, rfl⟩)
    fun span left hreads hh hstop => ?_
  exact fold_outcome h hc hd (hreads.weaken (Nat.le_succ _)) hh hstop
    (Nat.lt_succ_of_le (length_ahead_le tokens _))

theorem Meets.binary (h : Meets tokens limit operand 4 depth) :
    Meets tokens limit (binary tokens limit operand) 0 depth :=
  .chain .equality <| .chain .comparison <| .chain .sum <| .chain .product h

end

/-! ## Operands -/

/-- The prefix operator on top of its operand. -/
theorem Reads.unary {span : List Token} {operand : Measured} {op : Token}
    (ha : ahead tokens c = op :: rest) (hop : op.kind = .bang ∨ op.kind = .minus)
    (h : Reads tokens 4 (forward c 1) span operand) :
    Reads tokens 4 c (op :: span) ⟨.unary op operand.expr, operand.height + 1⟩ := by
  refine ⟨?_, h.spells.unary op, ⟨hop, h.le_tightness, h.stratified⟩, Nat.le_refl 4, ?_⟩
  · calc ahead tokens c
        = op :: (span ++ ahead tokens (forward (forward c 1) span.length)) := by
          rw [← h.ahead_eq, ha, ahead_forward_one ha]
      _ = _ := by rw [forward_cons op, List.cons_append]
  · simp [Expr.height, h.height_eq]

/-- The group around a tree between parentheses. -/
theorem Reads.grouping {span : List Token} {inner : Measured} {opening close : Token}
    {rest' : List Token} (ha : ahead tokens c = opening :: rest)
    (ho : opening.kind = .leftParen) (h : Reads tokens 0 (forward c 1) span inner)
    (hclose : ahead tokens (forward (forward c 1) span.length) = close :: rest')
    (hc : close.kind = .rightParen) :
    Reads tokens 4 c (opening :: (span ++ [close]))
      ⟨.grouping inner.expr, inner.height + 1⟩ := by
  refine ⟨?_, h.spells.grouping ho hc, h.stratified, Nat.le_succ 4, ?_⟩
  · calc ahead tokens c
        = opening :: (span ++ close :: rest') := by
          rw [← hclose, ← h.ahead_eq, ha, ahead_forward_one ha]
      _ = opening :: (span ++ [close]) ++
            ahead tokens (forward (forward (forward c 1) span.length) 1) := by
          rw [ahead_forward_one hclose, List.cons_append, List.append_assoc, List.singleton_append]
      _ = _ := by rw [forward_concat close, forward_cons opening]
  · simp [Expr.height, h.height_eq]

theorem Reads.literal (ha : ahead tokens c = t :: rest)
    (h : t.kind ∈ [.number, .string, .keyword .trueWord, .keyword .falseWord, .keyword .nilWord]) :
    Reads tokens 4 c [t] ⟨.literal t, 1⟩ := by
  refine ⟨?_, .literal t, h, Nat.le_succ 4, rfl⟩
  rw [List.length_singleton, ahead_forward_one ha]
  exact ha

section
variable {inner : Reading Measured} {depth : Nat}

/-- Behind the tree in a group its closing parenthesis is expected. There the automaton stands
behind an operand, with the group still open. -/
theorem closing_outcome {span : List Token} {tree : Measured} {opening : Token} {bound : Nat}
    (hc : EndAhead tokens (forward c 1)) (hb : (ahead tokens c).length ≤ bound)
    (ha : ahead tokens c = opening :: rest) (ho : opening.kind = .leftParen)
    (h : Reads tokens 0 (forward c 1) span tree)
    (hs : StopsAt 0 (ahead tokens (forward (forward c 1) span.length))) :
    Outcome tokens limit 4 bound c
      (closing tokens limit opening tree (forward (forward c 1) span.length)) := by
  obtain ⟨close, rest', hclose⟩ := (h.endAhead hc).exists_cons
  by_cases hp : close.kind = .rightParen
  · have hgroup := Reads.grouping ha ho h hclose hp
    rw [closing_of_paren hclose hp, forward_concat close, forward_cons opening]
    exact hgroup.capped_outcome (stopsAt_four _) hb opening
  · -- the group is open, so nothing but its parenthesis fits behind the operand
    rw [closing_of_other hclose hp]
    refine ⟨close, _, rfl, .inr fun k => ?_⟩
    rw [ha, verdict_of_pending (Automaton.step_opening ho k), ← ahead_forward_one ha, h.verdict_eq,
      hclose]
    rw [hclose] at hs
    refine verdict_of_stuck ?_ rest'
    rw [Automaton.step_after hs.tightness?_eq_none]
    exact if_neg hp

theorem primary_outcome (h : Meets tokens limit inner 0 (depth + 1)) (hc : EndAhead tokens c)
    (hd : c.depth = depth + 1) (hl : depth < limit) (ha : ahead tokens c = t :: rest)
    (ht : ¬ (t.kind = .bang ∨ t.kind = .minus)) :
    Outcome tokens limit 4 (depth + (ahead tokens c).length) c
      (primary tokens limit inner c) := by
  by_cases hleaf :
      t.kind ∈ [.number, .string, .keyword .trueWord, .keyword .falseWord, .keyword .nilWord]
  · rw [primary_of_leaf ha hleaf]
    exact ⟨[t], rfl, Reads.literal ha hleaf, Nat.succ_le_of_lt (Nat.zero_lt_of_lt hl),
      stopsAt_four _⟩
  by_cases ho : t.kind = .leftParen
  · have hk : t.kind ≠ .endOfInput := by simp [ho]
    have hc' := hc.forward_one ha hk
    have hrest := ahead_forward_one ha
    have hlength : (ahead tokens c).length = rest.length + 1 := by rw [ha, List.length_cons]
    rw [primary_of_opening ha ho]
    refine Outcome.bind (h (forward c 1) hd hc') (by rw [hrest]; omega)
      (fun k => ⟨k + 1, ?_⟩) fun span tree hreads _ hstop => ?_
    · rw [ha, hrest, verdict_of_pending (Automaton.step_opening ho k)]
    · exact closing_outcome hc' (Nat.le_add_left _ _) ha ho hreads hstop
  · rw [primary_of_other ha hleaf ho]
    refine ⟨t, _, rfl, .inr fun k => ?_⟩
    rw [ha]
    exact verdict_of_stuck (Automaton.step_other ht ho hleaf k) rest

end

theorem operandBody_outcome {room depth : Nat}
    (h : Meets tokens limit (unary tokens limit room) 4 (depth + 1))
    (hc : EndAhead tokens c) (hd : c.depth = depth + 1) (hl : depth < limit) :
    Outcome tokens limit 4 (depth + (ahead tokens c).length) c
      (operandBody tokens limit room c) := by
  obtain ⟨t, rest, ha⟩ := hc.exists_cons
  by_cases ht : t.kind = .bang ∨ t.kind = .minus
  · have hk : t.kind ≠ .endOfInput := by
      intro hk
      simp [hk] at ht
    have hrest := ahead_forward_one ha
    have hlength : (ahead tokens c).length = rest.length + 1 := by rw [ha, List.length_cons]
    rw [operandBody_of_unary ha ht]
    refine Outcome.bind (h (forward c 1) hd (hc.forward_one ha hk)) (by rw [hrest]; omega)
      (fun k => ⟨k, ?_⟩) fun span operand hreads _ _ => ?_
    · rw [ha, hrest, verdict_of_pending (Automaton.step_unary ht _ rfl)]
    · rw [forward_cons t]
      exact (Reads.unary ha ht hreads).capped_outcome (stopsAt_four _) (Nat.le_add_left _ _) t
  · rw [operandBody_of_other ha ht]
    exact primary_outcome h.binary hc hd hl ha ht

/-- The induction is on the room under the limit, which shrinks as the depth grows. -/
theorem unary_meets {room depth : Nat} (h : depth + room = limit) :
    Meets tokens limit (unary tokens limit room) 4 depth := by
  induction room generalizing depth with
  | zero =>
    intro c hd hc
    obtain ⟨t, rest, ha⟩ := hc.exists_cons
    rw [unary, nested_of_le ha (by omega)]
    exact Refusal.tooDeep (by rw [ha, List.length_cons]; omega) t c
  | succ room ih =>
    intro c hd hc
    have hl : c.depth < limit := by omega
    have hbody := operandBody_outcome (ih (show depth + 1 + room = limit by omega))
      (show EndAhead tokens (deeper c) from hc) (by rw [deeper_depth, hd]) (by omega)
    rw [unary_succ]
    cases hr : operandBody tokens limit room (deeper c) with
    | error e c' =>
      rw [hr] at hbody
      obtain ⟨c'', hn⟩ := nested_of_error hl hr
      rw [hn]
      exact hbody
    | ok m c' =>
      rw [hr] at hbody
      obtain ⟨span, rfl, hreads, hh, hstop⟩ := hbody
      rw [nested_of_ok hl hr]
      -- the depth is no part of what a tree is read from
      exact ⟨span, rfl, ⟨hreads.ahead_eq, hreads.spells, hreads.stratified, hreads.le_tightness,
        hreads.height_eq⟩, hh, hstop⟩

theorem expression_meets (tokens : Array Token) (limit : Nat) :
    Meets tokens limit (expression tokens limit) 0 0 :=
  (unary_meets (Nat.zero_add limit)).binary

end Lox.Reading
