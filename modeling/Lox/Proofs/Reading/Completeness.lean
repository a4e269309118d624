import Lox.Proofs.Reading.Outcome

/-!
A reading finds every tree of the grammar that fits under the limit, and so the trees that are read
are exactly those. The early check of the depth refuses none of them: a node that is nested `d` deep
lies on a way down that has `d` more nodes above it.
-/

namespace Lox.Reading

section
variable (tokens : Array Token) (limit : Nat)

/-- A tree of the grammar that is ahead and has room under the limit. -/
structure LiesAhead (c : Cursor) (e : Expr) (span rest : List Token) : Prop where
  ahead_eq : ahead tokens c = span ++ rest
  rest_ne_nil : rest ≠ []
  spells : e.Spells span
  stratified : e.IsStratified
  height_le : c.depth + e.height ≤ limit

/-- The reading finds the trees that bind at least `n` tight, where nothing follows that would
extend them. -/
def Finds (r : Reading Measured) (n depth : Nat) : Prop :=
  ∀ ⦃c e span rest⦄, LiesAhead tokens limit c e span rest → c.depth = depth → n ≤ e.tightness →
    StopsAt n rest → r c = .ok ⟨e, e.height⟩ (forward c span.length)

end

variable {tokens : Array Token} {limit depth : Nat} {c : Cursor} {e : Expr}
  {span rest : List Token}

theorem StopsAt.weaken {m n : Nat} (h : StopsAt m rest) (hmn : m ≤ n) : StopsAt n rest :=
  fun t ht k hk => Nat.lt_of_lt_of_le (h t ht k hk) hmn

theorem stopsAt_cons {t : Token} {m n : Nat} (h : t.kind.tightness? = some m) (hmn : m < n) :
    StopsAt n (t :: rest) := by
  intro u hu k hk
  cases hu
  rw [h] at hk
  cases hk
  exact hmn

/-! ## What lies ahead of a cursor inside a tree -/

theorem LiesAhead.length_eq (h : LiesAhead tokens limit c e span rest) :
    (ahead tokens c).length = span.length + rest.length := by
  rw [h.ahead_eq, List.length_append]

/-- The left operand lies before its operator, and the right one behind it. -/
theorem LiesAhead.of_binary {left right : Expr} {op : Token}
    (h : LiesAhead tokens limit c (.binary left op right) span rest) :
    ∃ leftSpan rightSpan, span = leftSpan ++ op :: rightSpan ∧
      LiesAhead tokens limit c left leftSpan (op :: (rightSpan ++ rest)) ∧
      LiesAhead tokens limit (forward (forward c leftSpan.length) 1) right rightSpan rest := by
  obtain ⟨m, -, -, -, hsl, hsr⟩ := h.stratified
  have hheight := h.height_le
  simp only [Expr.height] at hheight
  have hahead := h.ahead_eq
  cases h.spells with
  | @binary _ _ _ leftSpan rightSpan hl hr =>
    rw [List.append_assoc, List.cons_append] at hahead
    refine ⟨leftSpan, rightSpan, rfl, ?_, ?_⟩
    · exact ⟨hahead, List.cons_ne_nil _ _, hl, hsl, by omega⟩
    · refine ⟨ahead_forward_one (ahead_forward hahead), h.rest_ne_nil, hr, hsr, ?_⟩
      simp only [forward_depth]
      omega

theorem LiesAhead.of_unary {op : Token} {operand : Expr}
    (h : LiesAhead tokens limit c (.unary op operand) span rest) :
    ∃ inside, span = op :: inside ∧
      LiesAhead tokens limit (forward (deeper c) 1) operand inside rest := by
  obtain ⟨-, -, hs⟩ := h.stratified
  have hheight := h.height_le
  simp only [Expr.height] at hheight
  have hahead := h.ahead_eq
  cases h.spells with
  | @unary _ _ inside hspells =>
    refine ⟨inside, rfl, ahead_forward_one hahead, h.rest_ne_nil, hspells, hs, ?_⟩
    simp only [forward_depth, deeper_depth]
    omega

theorem LiesAhead.of_grouping {inner : Expr}
    (h : LiesAhead tokens limit c (.grouping inner) span rest) :
    ∃ opening closing inside, span = opening :: (inside ++ [closing]) ∧
      opening.kind = .leftParen ∧ closing.kind = .rightParen ∧
      LiesAhead tokens limit (forward (deeper c) 1) inner inside (closing :: rest) := by
  have hheight := h.height_le
  simp only [Expr.height] at hheight
  have hahead := h.ahead_eq
  cases h.spells with
  | @grouping opening closing _ inside ho hc hspells =>
    rw [List.cons_append, List.append_assoc, List.singleton_append] at hahead
    refine ⟨opening, closing, inside, rfl, ho, hc, ahead_forward_one hahead,
      List.cons_ne_nil _ _, hspells, h.stratified, ?_⟩
    simp only [forward_depth, deeper_depth]
    omega

/-! ## Binary operators -/

section
variable {level : Level} {operand : Reading Measured}

/-- Behind an operator of the level the right operand is found, and the fold goes on with the tree
that takes in both. -/
theorem foldRight_finds (h : Finds tokens limit operand (level.tightness + 1) depth)
    (hd : c.depth = depth) {left right : Expr} {op : Token} {leftSpan rightSpan : List Token}
    (hr : LiesAhead tokens limit (forward (forward c leftSpan.length) 1) right rightSpan rest)
    (ht : level.tightness + 1 ≤ right.tightness) (hs : StopsAt (level.tightness + 1) rest)
    (hh : max left.height right.height + 1 ≤ limit) (steps : Nat) :
    foldRight tokens limit level operand steps ⟨left, left.height⟩ op
        (forward (forward c leftSpan.length) 1) =
      fold tokens limit level operand steps
        ⟨.binary left op right, (Expr.binary left op right).height⟩
        (forward c (leftSpan ++ op :: rightSpan).length) := by
  rw [foldRight, bind_of_ok (h hr hd ht hs), bind_of_ok (checkHeight_of_le hh op _),
    forward_cons op, forward_append]
  rfl

/-- When a tree of this level or a tighter one has been read, the fold stands behind it with the
tree as its left operand. The induction is on the tree and follows its left spine, along which the
operators of the level are taken one by one. -/
theorem fold_finds (h : Finds tokens limit operand (level.tightness + 1) depth)
    (hd : c.depth = depth) (hl : LiesAhead tokens limit c e span rest)
    (hn : level.tightness ≤ e.tightness) (hs : StopsAt (level.tightness + 1) rest)
    {steps : Nat} (hsteps : (ahead tokens c).length < steps) :
    ∃ steps', rest.length < steps' ∧
      (operand >>= fold tokens limit level operand steps) c =
        fold tokens limit level operand steps' ⟨e, e.height⟩ (forward c span.length) := by
  have hlevel := level.tightness_lt
  induction e generalizing span rest with
  | literal t | unary op operand | grouping inner =>
    have hlength := hl.length_eq
    have ht : level.tightness + 1 ≤ 4 := hlevel
    exact ⟨steps, by omega, bind_of_ok (h hl hd (by simp only [Expr.tightness]; omega) hs)⟩
  | binary left op right ihl ihr =>
    -- a tighter operator belongs to the operand
    by_cases ht : level.tightness + 1 ≤ (Expr.binary left op right).tightness
    · have hlength := hl.length_eq
      exact ⟨steps, by omega, bind_of_ok (h hl hd ht hs)⟩
    obtain ⟨m, hop, hml, hmr, -⟩ := hl.stratified
    have hm : m = level.tightness := by
      simp only [Expr.tightness, hop, Option.getD_some] at hn ht
      omega
    subst hm
    have hheight := hl.height_le
    simp only [Expr.height] at hheight
    obtain ⟨leftSpan, rightSpan, rfl, hleft, hright⟩ := hl.of_binary
    obtain ⟨steps', hlt, heq⟩ := ihl hleft hml (stopsAt_cons hop (Nat.lt_succ_self _))
    simp only [List.length_cons, List.length_append] at hlt
    -- one of the steps that are left takes this operator
    obtain ⟨k, rfl⟩ : ∃ k, steps' = k + 1 := ⟨steps' - 1, by omega⟩
    refine ⟨k, by omega, ?_⟩
    rw [heq, fold_of_operator (ahead_forward hleft.ahead_eq)
      ((TokenKind.level?_eq_some_iff _ _).mpr hop)]
    exact foldRight_finds h hd hright hmr hs (by omega) k

theorem Finds.chain (level : Level)
    (h : Finds tokens limit operand (level.tightness + 1) depth) :
    Finds tokens limit (chain tokens limit level operand) level.tightness depth := by
  intro c e span rest hl hd hn hs
  obtain ⟨steps, hlt, heq⟩ := fold_finds h hd hl hn (hs.weaken (Nat.le_succ _))
    (Nat.lt_succ_of_le (length_ahead_le tokens c))
  obtain ⟨k, rfl⟩ : ∃ k, steps = k + 1 := ⟨steps - 1, by omega⟩
  obtain ⟨t, rest', rfl⟩ := List.exists_cons_of_ne_nil hl.rest_ne_nil
  have ht : t.kind.level? ≠ some level := by
    intro ht
    exact absurd (hs t rfl _ ((TokenKind.level?_eq_some_iff _ _).mp ht)) (Nat.lt_irrefl _)
  exact heq.trans (fold_of_other (ahead_forward hl.ahead_eq) ht)

theorem Finds.binary (h : Finds tokens limit operand 4 depth) :
    Finds tokens limit (binary tokens limit operand) 0 depth :=
  .chain .equality <| .chain .comparison <| .chain .sum <| .chain .product h

end

/-! ## Operands -/

/-- A group is found by what finds the tree inside, one nesting deeper. -/
theorem primary_finds_grouping {inner : Reading Measured} {tree : Expr}
    (h : Finds tokens limit inner 0 (depth + 1)) (hd : c.depth = depth)
    (hl : LiesAhead tokens limit c (.grouping tree) span rest) :
    primary tokens limit inner (deeper c) =
      .ok ⟨.grouping tree, tree.height + 1⟩ (forward (deeper c) span.length) := by
  have ha : ahead tokens (deeper c) = span ++ rest := hl.ahead_eq
  have hheight : c.depth + (tree.height + 1) ≤ limit := hl.height_le
  obtain ⟨opening, closing, inside, rfl, ho, hc, hinner⟩ := hl.of_grouping
  have hstop : StopsAt 0 (closing :: rest) := by
    intro t ht m hm
    cases ht
    simp [hc, TokenKind.tightness?] at hm
  have hd' : (forward (deeper c) 1).depth = depth + 1 := by
    rw [forward_depth, deeper_depth, hd]
  have hh : tree.height + 1 ≤ limit := by omega
  rw [primary_of_opening ha ho, bind_of_ok (h hinner hd' (Nat.zero_le _) hstop),
    closing_of_paren (ahead_forward hinner.ahead_eq) hc, capped_of_le hh, forward_concat closing,
    forward_cons opening]

/-- What binds at least as tight as a prefix operator is found one nesting deeper. -/
theorem operandBody_finds {room : Nat}
    (h : Finds tokens limit (unary tokens limit room) 4 (depth + 1)) (hd : c.depth = depth)
    (hl : LiesAhead tokens limit c e span rest) (hn : 4 ≤ e.tightness) (hs : StopsAt 4 rest) :
    operandBody tokens limit room (deeper c) =
      .ok ⟨e, e.height⟩ (forward (deeper c) span.length) := by
  have ha : ahead tokens (deeper c) = span ++ rest := hl.ahead_eq
  have hstratified := hl.stratified
  cases e with
  | binary left op right =>
    obtain ⟨m, hop, -⟩ := hstratified
    have hm := TokenKind.tightness?_lt hop
    simp only [Expr.tightness, hop, Option.getD_some] at hn
    omega
  | literal t =>
    cases hl.spells
    rw [operandBody_of_other ha (by rintro (h | h) <;> simp [h, Expr.IsStratified] at hstratified)]
    exact primary_of_leaf ha hstratified
  | unary op operand =>
    obtain ⟨hop, ht, -⟩ := hstratified
    have hheight : c.depth + (operand.height + 1) ≤ limit := hl.height_le
    obtain ⟨inside, rfl, hoperand⟩ := hl.of_unary
    have hd' : (forward (deeper c) 1).depth = depth + 1 := by
      rw [forward_depth, deeper_depth, hd]
    have hh : operand.height + 1 ≤ limit := by omega
    rw [operandBody_of_unary ha hop, afterPrefix, bind_of_ok (h hoperand hd' ht hs),
      capped_of_le hh, forward_cons op]
    rfl
  | grouping inner =>
    have hgroup := primary_finds_grouping h.binary hd hl
    obtain ⟨opening, closing, inside, rfl, ho, -⟩ := hl.of_grouping
    rwa [operandBody_of_other ha (by simp [ho])]

/-- The induction is on the room; a tree has no node more on its way down than there is room. -/
theorem unary_finds {room : Nat} (h : depth + room = limit) :
    Finds tokens limit (unary tokens limit room) 4 depth := by
  induction room generalizing depth with
  | zero =>
    intro c e span rest hl hd
    have hheight := hl.height_le
    have hpos := e.height_pos
    omega
  | succ room ih =>
    intro c e span rest hl hd hn hs
    have hheight := hl.height_le
    have hpos := e.height_pos
    rw [unary_succ]
    exact nested_of_ok (by omega) (operandBody_finds (ih (by omega)) hd hl hn hs)

theorem expression_finds (tokens : Array Token) (limit : Nat) :
    Finds tokens limit (expression tokens limit) 0 0 :=
  (unary_finds (Nat.zero_add limit)).binary

end Lox.Reading
