import Lox.Proofs.Reading.Progress
import Lox.Proofs.Reading.Resuming

/-!
Two streams that begin with the same tokens. As long as a reading of the one is among these, the
other one is read alike; a tree that ends with them may go on on the other stream and grow higher.
So where the one is refused for its depth, the other one has no tree that fits under the limit
(`Foretells`, `lt_height_of_tooDeep`).
-/

namespace Lox.Reading

/-! ## What one result says about another -/

def Fails (y : EStateM.Result (Halt ParseError) Cursor Measured) : Prop :=
  ∀ m c, y ≠ .ok m c

/-- If there is a tree, then it is at least so high. -/
def Reaches (height : Nat) (y : EStateM.Result (Halt ParseError) Cursor Measured) : Prop :=
  ∀ m c, y = .ok m c → height ≤ m.height

/-- What the first result says about the second one, whose stream is like that of the first one up
to the place `n`. A tree that ends before the place is found on both; one that ends there is part of
whatever is found on the other stream; and a refusal there for depth is a failure on both. A result
from behind the place says nothing. -/
def Foretells (n : Nat) : EStateM.Result (Halt ParseError) Cursor Measured →
    EStateM.Result (Halt ParseError) Cursor Measured → Prop
  | .ok m c, y => (c.position < n → y = .ok m c) ∧ (c.position = n → Reaches m.height y)
  | .error (.error e) c, y => c.position = n → e.cause = .nestsTooDeeply → Fails y
  | .error (.fault _) _, _ => True

namespace Foretells

variable {n : Nat} {x y : EStateM.Result (Halt ParseError) Cursor Measured}

theorem refl (n : Nat) (x : EStateM.Result (Halt ParseError) Cursor Measured) :
    Foretells n x x := by
  cases x with
  | ok m c =>
    refine ⟨fun _ => rfl, fun _ m' c' h => ?_⟩
    cases h
    exact Nat.le_refl _
  | error e c =>
    cases e with
    | error e => exact fun _ _ m' c' h => by cases h
    | fault x => trivial

theorem of_lt (h : n < (endOf x).position) : Foretells n x y := by
  cases x with
  | ok m c =>
    have hn : n < c.position := h
    exact ⟨fun _ => by omega, fun _ => by omega⟩
  | error e c =>
    have hn : n < c.position := h
    cases e with
    | error e => exact fun _ => by omega
    | fault x => trivial

/-- Behind a token that the one stream has at the place, nothing is said. -/
theorem of_passed {r : Reading Measured} (hr : Advances r) {c : Cursor} (hc : c.position = n) :
    Foretells n (r (forward c 1)) y :=
  of_lt (Nat.lt_of_lt_of_le (hc ▸ Nat.lt_succ_self c.position) (hr (forward c 1)))

theorem of_error {e : Halt ParseError} {c : Cursor} (hn : n ≤ (endOf x).position) :
    Foretells n x (.error e c) := by
  cases x with
  | ok m c' =>
    have hc : n ≤ c'.position := hn
    exact ⟨fun _ => by omega, fun _ m' c'' h => by cases h⟩
  | error e' c' =>
    cases e' with
    | error e' => exact fun _ _ m' c'' h => by cases h
    | fault x => trivial

/-- An error of another cause says nothing. -/
theorem of_cause_ne {t : Token} {cause : ParseError.Cause} (h : cause ≠ .nestsTooDeeply)
    (c : Cursor) : Foretells n (.error (.error (.atToken t cause)) c) y :=
  fun _ hc => absurd hc h

theorem bind {r r' : Reading Measured} {f f' : Measured → Reading Measured} {c : Cursor}
    (h : Foretells n (r c) (r' c)) (hr : Advances r) (hf : ∀ m, Advances (f m))
    (hsame : ∀ m c', c.position ≤ c'.position → c'.position < n →
      Foretells n (f m c') (f' m c'))
    (hgrown : ∀ m m' c' c'', c'.position = n → m.height ≤ m'.height →
      Foretells n (f m c') (f' m' c'')) :
    Foretells n ((r >>= f) c) ((r' >>= f') c) := by
  cases hrun : r c with
  | error e c' =>
    rw [bind_of_error hrun]
    rw [hrun] at h
    cases e with
    | error e =>
      intro hc he m c'' hm
      obtain ⟨m', c₁, hr', -⟩ := exists_of_bind_eq_ok hm
      exact h hc he m' c₁ hr'
    | fault x => trivial
  | ok m c' =>
    rw [bind_of_ok hrun]
    rw [hrun] at h
    obtain ⟨hlt, heq⟩ := h
    rcases Nat.lt_trichotomy c'.position n with hc | hc | hc
    · -- both go on from the same tree at the same place
      rw [bind_of_ok (hlt hc)]
      exact hsame m c' (hr.of_ok hrun) hc
    · -- the other stream may have gone further by now, with a tree that is no lower, or have failed
      have hle : n ≤ (endOf (f m c')).position := hc ▸ hf m c'
      cases hrun' : r' c with
      | ok m' c'' =>
        rw [bind_of_ok hrun']
        exact hgrown m m' c' c'' hc (heq hc m' c'' hrun')
      | error e c'' =>
        rw [bind_of_error hrun']
        exact of_error hle
    · exact of_lt (Nat.lt_of_lt_of_le hc (hf m c'))

/-- The depth is no part of what a result says. -/
theorem shallower (h : Foretells n x y) : Foretells n (shallower x) (shallower y) := by
  have hgrown : ∀ height, Reaches height y → Reaches height (Reading.shallower y) := by
    intro height hy m c hm
    cases y with
    | ok m' c' =>
      cases hm
      exact hy _ c' rfl
    | error e c' => cases hm
  cases x with
  | ok m c =>
    obtain ⟨hlt, heq⟩ := h
    refine ⟨fun hc => ?_, fun hc => hgrown _ (heq hc)⟩
    rw [hlt hc]
    rfl
  | error e c =>
    cases e with
    | fault x => trivial
    | error e =>
      intro hc he m c' hm
      cases y with
      | ok m' c'' => exact h hc he m' c'' rfl
      | error e' c'' => cases hm

/-- A tree that has grown is too high, if it has been too high before. -/
theorem capped {limit : Nat} {m m' : Measured} {c : Cursor} (hc : c.position = n)
    (h : m.height ≤ m'.height) (top : Token) (c' : Cursor) :
    Foretells n (capped limit top m c) (capped limit top m' c') := by
  by_cases hh : m'.height ≤ limit
  · rw [capped_of_le hh, capped_of_le (Nat.le_trans h hh)]
    refine ⟨fun hlt => absurd hc (Nat.ne_of_lt hlt), fun _ m₁ c₁ hm => ?_⟩
    cases hm
    exact h
  · rw [capped_of_lt (Nat.lt_of_not_le hh)]
    exact of_error (hc ▸ Advances.capped top m c)

end Foretells

/-! ## Streams that begin with the same tokens -/

/-- The streams have the first `n` tokens in common, and the first one goes on behind them. -/
structure Shares (tokens tokens' : Array Token) (n : Nat) : Prop where
  getElem?_eq : ∀ i < n, tokens'[i]? = tokens[i]?
  lt_size : n < tokens.size

/-- Wherever up to the place `n` the readings start, the first one foretells the second one. -/
structure Precedes (n : Nat) (r r' : Reading Measured) : Prop where
  advances : Advances r
  foretells : ∀ c, c.position ≤ n → Foretells n (r c) (r' c)

/-- The limit is the same on both streams, so either both go deeper or neither does. -/
theorem Precedes.nested {n : Nat} {body body' : Reading Measured} (hb : Precedes n body body')
    (tokens tokens' : Array Token) (limit : Nat) :
    Precedes n (nested tokens limit body) (nested tokens' limit body') := by
  refine ⟨hb.advances.nested, fun c hc => ?_⟩
  by_cases hl : c.depth < limit
  · rw [nested_of_lt hl, nested_of_lt hl]
    exact (hb.foretells (deeper c) hc).shallower
  · rw [nested_of_not_lt hl, nested_of_not_lt hl]
    exact fun _ _ m c' hm => by cases hm

namespace Shares

variable {tokens tokens' : Array Token} {n limit : Nat} {c : Cursor}

theorem exists_ahead (h : Shares tokens tokens' n) (hc : c.position ≤ n) :
    ∃ t rest, ahead tokens c = t :: rest :=
  ⟨_, _, ahead_eq_cons (Array.getElem?_eq_getElem (Nat.lt_of_le_of_lt hc h.lt_size))⟩

theorem exists_ahead_both (h : Shares tokens tokens' n) (hc : c.position < n) :
    ∃ t rest rest', ahead tokens c = t :: rest ∧ ahead tokens' c = t :: rest' := by
  have ht := Array.getElem?_eq_getElem (Nat.lt_trans hc h.lt_size)
  exact ⟨_, _, _, ahead_eq_cons ht, ahead_eq_cons ((h.getElem?_eq _ hc).trans ht)⟩

theorem le_size' (h : Shares tokens tokens' n) : n ≤ tokens'.size := by
  refine Nat.le_of_not_lt fun hlt => ?_
  have ht := h.getElem?_eq _ hlt
  rw [Array.getElem?_eq_none (Nat.le_refl _),
    Array.getElem?_eq_getElem (Nat.lt_trans hlt h.lt_size)] at ht
  cases ht

/-! ## Binary operators -/

section
variable {level : Level} {operand operand' : Reading Measured}

/-- Where the streams part, the tree of a fold is complete on the one and may grow on the other. -/
theorem fold_at (h : Shares tokens tokens' n) (hr : Advances operand) (hc : c.position = n)
    {left : Measured} {y : EStateM.Result (Halt ParseError) Cursor Measured}
    (hy : Reaches left.height y) (steps : Nat) :
    Foretells n (fold tokens limit level operand steps left c) y := by
  have hdone : Foretells n (.ok left c) y := ⟨fun hlt => absurd hc (Nat.ne_of_lt hlt), fun _ => hy⟩
  cases steps with
  | zero => exact hdone
  | succ steps =>
    obtain ⟨t, rest, ha⟩ := h.exists_ahead (Nat.le_of_eq hc)
    by_cases ht : t.kind.level? = some level
    · rw [fold_of_operator ha ht]
      exact Foretells.of_passed (Advances.foldRight hr steps left t) hc
    · rw [fold_of_other ha ht]
      exact hdone

/-- A right operand that has grown makes the tree no lower. -/
theorem joined_at (h : Shares tokens tokens' n) (hr : Advances operand) (hc : c.position = n)
    {left right right' : Measured} {op : Token} (hle : right.height ≤ right'.height)
    (steps steps' : Nat) (c' : Cursor) :
    Foretells n (joined tokens limit level operand steps left op right c)
      (joined tokens' limit level operand' steps' left op right' c') := by
  by_cases hh' : max left.height right'.height + 1 ≤ limit
  · have hh : max left.height right.height + 1 ≤ max left.height right'.height + 1 := by omega
    rw [joined_of_le (Nat.le_trans hh hh'), joined_of_le hh']
    exact h.fold_at hr hc (fun m c₁ hm => Nat.le_trans hh (le_height_of_fold hm)) steps
  · rw [joined_of_lt (Nat.lt_of_not_le hh')]
    exact Foretells.of_error (hc ▸ Advances.joined hr steps left op right c)

/-- There are always more steps than tokens up to the place. -/
theorem fold_foretells (h : Shares tokens tokens' n) (ho : Precedes n operand operand')
    {steps steps' : Nat} {left : Measured} (hc : c.position ≤ n)
    (hsteps : n < c.position + steps) (hsteps' : n < c.position + steps') :
    Foretells n (fold tokens limit level operand steps left c)
      (fold tokens' limit level operand' steps' left c) := by
  have hr := ho.advances
  induction steps generalizing steps' left c with
  | zero => omega
  | succ steps ih =>
    rcases Nat.eq_or_lt_of_le hc with hn | hn
    · exact h.fold_at hr hn (fun m c' hm => le_height_of_fold hm) _
    obtain ⟨steps', rfl⟩ : ∃ k, steps' = k + 1 := ⟨steps' - 1, by omega⟩
    obtain ⟨t, rest, rest', ha, ha'⟩ := h.exists_ahead_both hn
    by_cases ht : t.kind.level? = some level
    · have hn' : (forward c 1).position ≤ n := hn
      rw [fold_of_operator ha ht, fold_of_operator ha' ht, foldRight_eq, foldRight_eq]
      refine (ho.foretells _ hn').bind hr (.joined hr steps left t) (fun right c' hle hlt => ?_)
        fun right right' c' c'' hc' hle => h.joined_at hr hc' hle steps steps' c''
      by_cases hh : max left.height right.height + 1 ≤ limit
      · have hpassed : c.position + 1 ≤ c'.position := hle
        rw [joined_of_le hh, joined_of_le hh]
        exact ih (Nat.le_of_lt hlt) (by omega) (by omega)
      · rw [joined_of_lt (Nat.lt_of_not_le hh), joined_of_lt (Nat.lt_of_not_le hh)]
        exact Foretells.refl n _
    · rw [fold_of_other ha ht, fold_of_other ha' ht]
      exact Foretells.refl n _

theorem chain (h : Shares tokens tokens' n) (level : Level) (ho : Precedes n operand operand') :
    Precedes n (chain tokens limit level operand) (chain tokens' limit level operand') := by
  have hr := ho.advances
  have hsize := h.lt_size
  have hsize' := h.le_size'
  refine ⟨Advances.bind hr fun left => .fold hr _ left, fun c hc => ?_⟩
  refine (ho.foretells c hc).bind hr (.fold hr _) (fun left c' _ hlt => ?_)
    fun left left' c' c'' hc' hle => ?_
  · exact h.fold_foretells ho (Nat.le_of_lt hlt) (by omega) (by omega)
  · exact h.fold_at hr hc' (fun m c₁ hm => Nat.le_trans hle (le_height_of_fold hm)) _

theorem binary (h : Shares tokens tokens' n) (ho : Precedes n operand operand') :
    Precedes n (binary tokens limit operand) (binary tokens' limit operand') :=
  h.chain .equality <| h.chain .comparison <| h.chain .sum <| h.chain .product ho

end

/-! ## Operands -/

section
variable {inner inner' : Reading Measured}

theorem closing (h : Shares tokens tokens' n) {opening : Token} {tree : Measured}
    (hc : c.position < n) : Foretells n (closing tokens limit opening tree c)
      (closing tokens' limit opening tree c) := by
  obtain ⟨t, rest, rest', ha, ha'⟩ := h.exists_ahead_both hc
  by_cases ht : t.kind = .rightParen
  · rw [closing_of_paren ha ht, closing_of_paren ha' ht]
    exact Foretells.refl n _
  · rw [closing_of_other ha ht, closing_of_other ha' ht]
    exact Foretells.refl n _

theorem closing_at (h : Shares tokens tokens' n) {opening : Token} {tree : Measured}
    (hc : c.position = n) (y : EStateM.Result (Halt ParseError) Cursor Measured) :
    Foretells n (Reading.closing tokens limit opening tree c) y := by
  obtain ⟨t, rest, ha⟩ := h.exists_ahead (Nat.le_of_eq hc)
  by_cases ht : t.kind = .rightParen
  · rw [closing_of_paren ha ht]
    exact Foretells.of_passed (Advances.capped opening _) hc
  · rw [closing_of_other ha ht]
    exact Foretells.of_cause_ne (by decide) c

/-- Whatever token there is at the place, it is passed or refused. -/
theorem primary_at (h : Shares tokens tokens' n) (hr : Advances inner) (hc : c.position = n)
    (y : EStateM.Result (Halt ParseError) Cursor Measured) :
    Foretells n (Reading.primary tokens limit inner c) y := by
  obtain ⟨t, rest, ha⟩ := h.exists_ahead (Nat.le_of_eq hc)
  by_cases hl : t.kind ∈
      [.number, .string, .keyword .trueWord, .keyword .falseWord, .keyword .nilWord]
  · rw [primary_of_leaf ha hl]
    exact Foretells.of_passed (Advances.pure _) hc
  by_cases ho : t.kind = .leftParen
  · rw [primary_of_opening ha ho]
    exact Foretells.of_passed (hr.bind (.closing t)) hc
  · rw [primary_of_other ha hl ho]
    exact Foretells.of_cause_ne (by decide) c

theorem primary (h : Shares tokens tokens' n) (hi : Precedes n inner inner') :
    Precedes n (primary tokens limit inner) (primary tokens' limit inner') := by
  have hr := hi.advances
  refine ⟨Advances.primary hr, fun c hc => ?_⟩
  rcases Nat.eq_or_lt_of_le hc with hn | hn
  · exact h.primary_at hr hn _
  obtain ⟨t, rest, rest', ha, ha'⟩ := h.exists_ahead_both hn
  by_cases hl : t.kind ∈
      [.number, .string, .keyword .trueWord, .keyword .falseWord, .keyword .nilWord]
  · rw [primary_of_leaf ha hl, primary_of_leaf ha' hl]
    exact Foretells.refl n _
  by_cases ho : t.kind = .leftParen
  · have hn' : (forward c 1).position ≤ n := hn
    rw [primary_of_opening ha ho, primary_of_opening ha' ho]
    exact (hi.foretells _ hn').bind hr (.closing t) (fun tree c' _ hlt => h.closing hlt)
      fun tree tree' c' c'' hc' _ => h.closing_at hc' _
  · rw [primary_of_other ha hl ho, primary_of_other ha' hl ho]
    exact Foretells.refl n _

end

theorem afterPrefix {room : Nat}
    (hu : Precedes n (unary tokens limit room) (unary tokens' limit room)) (op : Token) :
    Precedes n (afterPrefix tokens limit room op) (afterPrefix tokens' limit room op) where
  advances := hu.advances.bind fun _ => .capped op _
  foretells c hc := (hu.foretells c hc).bind hu.advances (fun _ => .capped op _)
    (fun _ _ _ _ => Foretells.refl n _)
    fun _ _ _ c'' hc' hle => Foretells.capped hc' (Nat.succ_le_succ hle) op c''

theorem operandBody (h : Shares tokens tokens' n) {room : Nat}
    (hu : Precedes n (unary tokens limit room) (unary tokens' limit room)) :
    Precedes n (operandBody tokens limit room) (operandBody tokens' limit room) := by
  have hb : Precedes n (Reading.binary tokens limit (Reading.unary tokens limit room)) _ :=
    h.binary hu
  have hp : Precedes n (Reading.primary tokens limit _) _ := h.primary hb
  refine ⟨Advances.bind (.operator? _) fun op? => ?_, fun c hc => ?_⟩
  · cases op? with
    | none => exact hp.advances
    | some op => exact (afterPrefix hu op).advances
  rcases Nat.eq_or_lt_of_le hc with hn | hn
  · obtain ⟨t, rest, ha⟩ := h.exists_ahead hc
    by_cases ht : t.kind = .bang ∨ t.kind = .minus
    · rw [operandBody_of_unary ha ht]
      exact Foretells.of_passed (afterPrefix hu t).advances hn
    · rw [operandBody_of_other ha ht]
      exact h.primary_at hb.advances hn _
  obtain ⟨t, rest, rest', ha, ha'⟩ := h.exists_ahead_both hn
  by_cases ht : t.kind = .bang ∨ t.kind = .minus
  · rw [operandBody_of_unary ha ht, operandBody_of_unary ha' ht]
    exact (afterPrefix hu t).foretells _ hn
  · rw [operandBody_of_other ha ht, operandBody_of_other ha' ht]
    exact hp.foretells c hc

theorem unary (h : Shares tokens tokens' n) (room : Nat) :
    Precedes n (unary tokens limit room) (unary tokens' limit room) := by
  induction room with
  | zero =>
    refine Precedes.nested ⟨.bind (fun _ => Nat.le_refl _) fun t _ => Nat.le_refl _, ?_⟩ _ _ _
    exact fun c _ _ _ m c' hm => by cases hm
  | succ room ih =>
    rw [unary_succ, unary_succ]
    exact (h.operandBody ih).nested _ _ _

theorem expression (h : Shares tokens tokens' n) (limit : Nat) :
    Precedes n (expression tokens limit) (expression tokens' limit) :=
  h.binary (h.unary limit)

end Shares

/-! ## Whole streams -/

theorem shares_of_prefix {tokens span rest : List Token} {n : Nat} (h : tokens.take n <+: span)
    (hn : n < tokens.length) : Shares tokens.toArray (span ++ rest).toArray n where
  getElem?_eq i hi := by
    obtain ⟨more, rfl⟩ := h
    have hi' : i < (tokens.take n).length := by
      rw [List.length_take]
      omega
    rw [List.getElem?_toArray, List.getElem?_toArray, List.append_assoc,
      List.getElem?_append_left hi', List.getElem?_take_of_lt hi]
  lt_size := hn

variable {tokens : List Token} {limit : Nat} {c : Cursor} {error : ParseError}

/-- What a reading of the whole does behind the expression is not refused for its depth. -/
theorem expression_of_tooDeep
    (h : whole tokens.toArray limit .start = .error (.error error) c)
    (hcause : error.cause = .nestsTooDeeply) :
    expression tokens.toArray limit .start = .error (.error error) c := by
  cases hr : expression tokens.toArray limit .start with
  | error e c' =>
    rw [whole, bind_of_error hr] at h
    cases h
    rfl
  | ok m c' =>
    rw [whole, bind_of_ok hr, bind_of_ok (show current tokens.toArray c' = .ok _ c' from rfl)] at h
    split at h
    · cases h
    · cases h
      cases hcause

/-- A tree whose tokens begin with those behind which a stream is refused for its depth is higher
than the limit. -/
theorem lt_height_of_tooDeep (h : whole tokens.toArray limit .start = .error (.error error) c)
    (hcause : error.cause = .nestsTooDeeply) (hc : c.position < tokens.length)
    {span : List Token} (hspan : tokens.take c.position <+: span) {e : Expr} (hs : e.Spells span)
    (ht : e.IsStratified) : limit < e.height := by
  -- a tree that fits would be found on its own stream, where the refusal foretells that none is
  refine Nat.lt_of_not_le fun hle => ?_
  have hfound := @whole_of_spells span (Token.endMarker 1) limit e rfl hs ht hle
  obtain ⟨m, c', hm, -⟩ := exists_of_bind_eq_ok hfound
  have hshares : Shares tokens.toArray (span ++ [Token.endMarker 1]).toArray c.position :=
    shares_of_prefix hspan hc
  have hforetells := (hshares.expression limit).foretells .start (Nat.zero_le _)
  rw [expression_of_tooDeep h hcause] at hforetells
  exact hforetells rfl hcause m c' hm

end Lox.Reading
