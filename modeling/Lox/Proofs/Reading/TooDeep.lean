import Lox.Proofs.Reading.Limit
import Lox.Proofs.Reading.Prefixes

/-!
Refusals for depth. A stream is refused for its depth at a token that would be nested too deep, or
at the operator or parenthesis on top of a tree that has been passed and is too high (`IsDue`); and
it is never refused in vain: no expression that begins with the tokens that have been passed would
fit under the limit (`too_deep_never_spurious`).
-/

namespace Lox

/-- The token on top of a tree: its operator, or the parenthesis that opens its group. -/
def Expr.IsTop (t : Token) : Expr → List Token → Prop
  | literal _, _ => False
  | unary op _, _ => t = op
  | binary _ op _, _ => t = op
  | grouping _, span => span.head? = some t

namespace Reading

/-- A refusal for depth is due at this token: it is the next one, or it is on top of a tree that has
just been passed and is higher than the limit. -/
inductive IsDue (tokens : List Token) (limit position : Nat) (t : Token) : Prop
  | next (h : tokens[position]? = some t)
  | top {before span : List Token} {node : Expr} (htokens : tokens.take position = before ++ span)
    (hs : node.Spells span) (ht : node.IsStratified) (htop : node.IsTop t span)
    (hh : limit < node.height)

section
variable (tokens : Array Token) (limit : Nat)

/-- If the result is a refusal for depth, then a due one. -/
def Justified {α : Type} : EStateM.Result (Halt ParseError) Cursor α → Prop
  | .error (.error e) c => e.cause = .nestsTooDeeply → ∃ t, e = .atToken t .nestsTooDeeply ∧
    IsDue tokens.toList limit c.position t
  | _ => True

/-- A reading that finds trees, and refuses none but with good reason. -/
structure Justifies (r : Reading Measured) (n depth : Nat) : Prop where
  meets : Meets tokens limit r n depth
  justified : ∀ c, c.depth = depth → EndAhead tokens c → Justified tokens limit (r c)

end

variable {tokens : Array Token} {limit depth n : Nat} {c : Cursor} {t : Token} {rest : List Token}

namespace Justified

theorem bind {α β : Type} {r : Reading α} {f : α → Reading β}
    (h : Justified tokens limit (r c))
    (hf : ∀ a c', r c = .ok a c' → Justified tokens limit (f a c')) :
    Justified tokens limit ((r >>= f) c) := by
  cases hr : r c with
  | ok a c' =>
    rw [bind_of_ok hr]
    exact hf a c' hr
  | error e c' =>
    rw [hr] at h
    rw [bind_of_error hr]
    cases e with
    | error e => exact h
    | fault x => trivial

theorem shallower {α : Type} {x : EStateM.Result (Halt ParseError) Cursor α}
    (h : Justified tokens limit x) : Justified tokens limit (shallower x) := by
  cases x with
  | ok a c => trivial
  | error e c =>
    cases e with
    | error e => exact h
    | fault x => trivial

theorem of_cause_ne {α : Type} {cause : ParseError.Cause} (h : cause ≠ .nestsTooDeeply)
    (t : Token) (c : Cursor) :
    @Justified tokens limit α (.error (.error (.atToken t cause)) c) :=
  fun hc => absurd hc h

theorem of_isDue {α : Type} (h : IsDue tokens.toList limit c.position t) :
    @Justified tokens limit α (.error (.error (.atToken t .nestsTooDeeply)) c) :=
  fun _ => ⟨t, rfl, h⟩

end Justified

theorem Meets.exists_reads {r : Reading Measured} (h : Meets tokens limit r n depth)
    {m : Measured} {c' : Cursor} (hr : r c = .ok m c') (hd : c.depth = depth)
    (hc : EndAhead tokens c) : ∃ span, c' = forward c span.length ∧ Reads tokens n c span m := by
  have houtcome := h c hd hc
  rw [hr] at houtcome
  obtain ⟨span, hc', hreads, -⟩ := houtcome
  exact ⟨span, hc', hreads⟩

/-- The token on top of a tree that is too high is where a refusal behind the tree is due. -/
theorem Reads.isDue {span : List Token} {m : Measured} (h : Reads tokens n c span m)
    (ht : m.expr.IsTop t span) (hh : limit < m.height) :
    IsDue tokens.toList limit (forward c span.length).position t := by
  have htake : tokens.toList.take (c.position + span.length) =
      tokens.toList.take c.position ++ span := by
    have hspan : (ahead tokens c).take span.length = span := by
      rw [h.ahead_eq, List.take_left]
    rw [List.take_add]
    exact congrArg (tokens.toList.take c.position ++ ·) hspan
  exact .top htake h.spells h.stratified ht (h.height_eq ▸ hh)

theorem Reads.capped_justified {span : List Token} {m : Measured} (h : Reads tokens n c span m)
    (ht : m.expr.IsTop t span) :
    Justified tokens limit (capped limit t m (forward c span.length)) := by
  by_cases hh : m.height ≤ limit
  · rw [capped_of_le hh]
    trivial
  · have hlt := Nat.lt_of_not_le hh
    rw [capped_of_lt hlt]
    exact .of_isDue (h.isDue ht hlt)

/-! ## Binary operators -/

section
variable {level : Level} {operand : Reading Measured}

/-- The induction is on the steps; what carries it is that the left operand has been read. -/
theorem fold_justified (h : Justifies tokens limit operand (level.tightness + 1) depth)
    (hc : EndAhead tokens c) (hd : c.depth = depth) {span : List Token} {left : Measured}
    (hl : Reads tokens level.tightness c span left) (steps : Nat) :
    Justified tokens limit
      (fold tokens limit level operand steps left (forward c span.length)) := by
  induction steps generalizing span left with
  | zero => trivial
  | succ steps ih =>
    have hend := hl.endAhead hc
    obtain ⟨t, rest, ha⟩ := hend.exists_cons
    by_cases ht : t.kind.level? = some level
    · have hk : t.kind ≠ .endOfInput := by
        intro hk
        simp [hk, TokenKind.level?] at ht
      have hend' := hend.forward_one ha hk
      rw [fold_of_operator ha ht, foldRight_eq]
      refine .bind (h.justified _ hd hend') fun right c' hr => ?_
      obtain ⟨rightSpan, rfl, hreads⟩ := h.meets.exists_reads hr hd hend'
      have hbinary := hl.binary ha ht hreads
      rw [forward_cons t, forward_append]
      -- joined or refused, both operands have been passed with the operator on top of them
      by_cases hh : max left.height right.height + 1 ≤ limit
      · rw [joined_of_le hh]
        exact ih hbinary
      · have hlt := Nat.lt_of_not_le hh
        rw [joined_of_lt hlt]
        exact .of_isDue (hbinary.isDue rfl hlt)
    · rw [fold_of_other ha ht]
      trivial

theorem Justifies.chain (level : Level)
    (h : Justifies tokens limit operand (level.tightness + 1) depth) :
    Justifies tokens limit (chain tokens limit level operand) level.tightness depth where
  meets := h.meets.chain level
  justified c hd hc := by
    refine .bind (h.justified c hd hc) fun left c' hr => ?_
    obtain ⟨span, rfl, hreads⟩ := h.meets.exists_reads hr hd hc
    exact fold_justified h hc hd (hreads.weaken (Nat.le_succ _)) _

theorem Justifies.binary (h : Justifies tokens limit operand 4 depth) :
    Justifies tokens limit (binary tokens limit operand) 0 depth :=
  .chain .equality <| .chain .comparison <| .chain .sum <| .chain .product h

end

/-! ## Operands -/

theorem primary_justified {inner : Reading Measured}
    (h : Justifies tokens limit inner 0 depth) (hc : EndAhead tokens c) (hd : c.depth = depth) :
    Justified tokens limit (primary tokens limit inner c) := by
  obtain ⟨t, rest, ha⟩ := hc.exists_cons
  by_cases hleaf :
      t.kind ∈ [.number, .string, .keyword .trueWord, .keyword .falseWord, .keyword .nilWord]
  · rw [primary_of_leaf ha hleaf]
    trivial
  by_cases ho : t.kind = .leftParen
  · have hk : t.kind ≠ .endOfInput := by simp [ho]
    have hc' := hc.forward_one ha hk
    rw [primary_of_opening ha ho]
    refine .bind (h.justified _ hd hc') fun tree c' hr => ?_
    obtain ⟨span, rfl, hreads⟩ := h.meets.exists_reads hr hd hc'
    obtain ⟨close, rest', hclose⟩ := (hreads.endAhead hc').exists_cons
    by_cases hp : close.kind = .rightParen
    · rw [closing_of_paren hclose hp, forward_concat close, forward_cons t]
      exact (Reads.grouping ha ho hreads hclose hp).capped_justified rfl
    · rw [closing_of_other hclose hp]
      exact .of_cause_ne (by decide) close _
  · rw [primary_of_other ha hleaf ho]
    exact .of_cause_ne (by decide) t c

theorem operandBody_justified {room : Nat}
    (h : Justifies tokens limit (unary tokens limit room) 4 depth) (hc : EndAhead tokens c)
    (hd : c.depth = depth) : Justified tokens limit (operandBody tokens limit room c) := by
  obtain ⟨t, rest, ha⟩ := hc.exists_cons
  by_cases ht : t.kind = .bang ∨ t.kind = .minus
  · have hk : t.kind ≠ .endOfInput := by
      intro hk
      simp [hk] at ht
    have hc' := hc.forward_one ha hk
    rw [operandBody_of_unary ha ht, afterPrefix]
    refine .bind (h.justified _ hd hc') fun operand c' hr => ?_
    obtain ⟨span, rfl, hreads⟩ := h.meets.exists_reads hr hd hc'
    rw [forward_cons t]
    exact (Reads.unary ha ht hreads).capped_justified rfl
  · rw [operandBody_of_other ha ht]
    exact primary_justified h.binary hc hd

/-- The nesting check refuses the next token, and the depth is no part of where an error stands. -/
theorem nested_justified {body : Reading Measured} (hc : EndAhead tokens c)
    (hb : c.depth < limit → Justified tokens limit (body (deeper c))) :
    Justified tokens limit (nested tokens limit body c) := by
  by_cases hl : c.depth < limit
  · rw [nested_of_lt hl]
    exact (hb hl).shallower
  · obtain ⟨t, rest, ha⟩ := hc.exists_cons
    have hnext : tokens.toList[c.position]? = some t := by
      rw [Array.getElem?_toList]
      exact getElem?_of_ahead ha
    rw [nested_of_le ha (Nat.le_of_not_lt hl)]
    exact .of_isDue (.next hnext)

/-- The induction is on the room under the limit, as for what the readings lead to. -/
theorem unary_justifies {room : Nat} (h : depth + room = limit) :
    Justifies tokens limit (unary tokens limit room) 4 depth := by
  refine ⟨unary_meets h, fun c hd hc => ?_⟩
  induction room generalizing depth c with
  | zero =>
    exact nested_justified hc fun hl => by omega
  | succ room ih =>
    have h' : depth + 1 + room = limit := by omega
    rw [unary_succ]
    refine nested_justified hc fun _ => ?_
    exact operandBody_justified ⟨unary_meets h', fun c' => ih h' c'⟩ hc (by rw [deeper_depth, hd])

theorem expression_justifies (tokens : Array Token) (limit : Nat) :
    Justifies tokens limit (expression tokens limit) 0 0 :=
  (unary_justifies (Nat.zero_add limit)).binary

/-! ## Whole streams -/

variable {body : List Token} {last : Token} {a : Attempt} {error : ParseError}

theorem whole_of_read_error {tokens : List Token} (hr : Expr.read tokens limit .start = .ok a)
    (he : a.error = some error) :
    whole tokens.toArray limit .start = .error (.error error) a.cursor := by
  have hne : tokens ≠ [] := by
    rintro rfl
    cases hr
    cases he
  cases hw : whole tokens.toArray limit .start with
  | ok e c =>
    cases hr.symm.trans (read_of_ok hne hw)
    cases he
  | error e c =>
    cases e with
    | error e =>
      cases hr.symm.trans (read_of_error hne hw)
      cases he
      rfl
    | fault x => simp [Expr.read, hne, hw] at hr

theorem cause_of_message (hbody : ∀ t ∈ body, t.kind ≠ .endOfInput)
    (hlast : last.kind = .endOfInput) (hr : Expr.read (body ++ [last]) limit .start = .ok a)
    (he : a.error = some error) (hmessage : error.message = "Expression nests too deeply.") :
    error.cause = .nestsTooDeeply := by
  rcases read_outcome hbody hlast limit with
    ⟨e, hread, -⟩ | ⟨t, cause, c, hread, ⟨rfl, -⟩ | hverdict⟩
  · cases hr.symm.trans hread
    cases he
  · cases hr.symm.trans hread
    cases he
    rfl
  · cases hr.symm.trans hread
    cases he
    have hmem := Automaton.mem_of_verdict_eq_stuck hverdict
    simp [hmessage] at hmem

/-- A refusal for depth is never spurious. Behind the tokens that the reading has passed no
expression of the grammar can go on that fits under the limit, and the refusal stands at the next
token, or at the operator or opening parenthesis on top of a tree that has just been passed and is
too high. -/
theorem too_deep_never_spurious (hbody : ∀ t ∈ body, t.kind ≠ .endOfInput)
    (hlast : last.kind = .endOfInput) (hr : Expr.read (body ++ [last]) limit .start = .ok a)
    (he : a.error = some error) (hmessage : error.message = "Expression nests too deeply.") :
    (∀ (span : List Token) (e : Expr), (body ++ [last]).take a.cursor.position <+: span →
      e.Spells span → e.IsStratified → limit < e.height) ∧
    ∃ t, error = .atToken t .nestsTooDeeply ∧
      IsDue (body ++ [last]) limit a.cursor.position t := by
  have hcause := cause_of_message hbody hlast hr he hmessage
  have hwhole := whole_of_read_error hr he
  have hposition : a.cursor.position < (body ++ [last]).length := by
    obtain ⟨a', hsettled, hread⟩ := exists_attempt hlast limit (c := .start) (Nat.zero_le _) rfl
    cases hr.symm.trans (hread []).1
    rw [List.length_append, List.length_singleton]
    exact Nat.lt_succ_of_le hsettled.position_le
  refine ⟨fun span e hspan hs ht => ?_, ?_⟩
  · exact lt_height_of_tooDeep hwhole hcause hposition hspan hs ht
  · have hjustified := (expression_justifies (body ++ [last]).toArray limit).justified .start rfl
      (endAhead_start hlast)
    rw [expression_of_tooDeep hwhole hcause] at hjustified
    exact hjustified hcause

/-- Under a limit of two nodes `--1` is refused at its number: whatever is put behind two prefix
operators, the tree has three nodes at least. -/
theorem too_deep_negations :
    let minus : Token := ⟨1, .minus, "-", none⟩
    let one : Token := ⟨1, .number, "1", some (.number 1)⟩
    let refused : Attempt := ⟨none, some (.atToken one .nestsTooDeeply), ⟨2, 0⟩⟩
    (∀ t ∈ [minus, minus, one], t.kind ≠ .endOfInput) ∧ (Token.endMarker 1).kind = .endOfInput ∧
      Expr.read ([minus, minus, one] ++ [Token.endMarker 1]) 2 .start = .ok refused ∧
      ∀ (span : List Token) (e : Expr), [minus, minus] <+: span → e.Spells span →
        e.IsStratified → 2 < e.height := by
  intro minus one refused
  have hbody : ∀ t ∈ [minus, minus, one], t.kind ≠ .endOfInput := by decide
  have hr : Expr.read ([minus, minus, one] ++ [Token.endMarker 1]) 2 .start = .ok refused := rfl
  exact ⟨hbody, rfl, hr, (too_deep_never_spurious hbody rfl hr rfl rfl).1⟩

end Reading

end Lox
