import Lox.Proofs.Reading.Depth
import Lox.Proofs.Reading.Whole

/-!
Readings one after the other. A reading sees nothing of a stream but what lies between its cursor
and the next end marker, which it never passes. So of two streams that have this in common one is
read like the other, with the cursor as much further on as the one stream has more tokens in front
(`Stretch.exists_read`), and any number of readings can follow each other on one stream
(`readings_safe`).
-/

namespace Lox

namespace Reading

/-! ## Single steps -/

section
variable {tokens : Array Token} {c : Cursor} {t : Token} {rest : List Token}

theorem forward_comm (c : Cursor) (m n : Nat) :
    forward (forward c m) n = forward (forward c n) m := by
  rw [forward_forward, forward_forward, Nat.add_comm]

theorem ahead_eq_cons (h : tokens[c.position]? = some t) :
    ahead tokens c = t :: tokens.toList.drop (c.position + 1) := by
  obtain ⟨hlt, rfl⟩ := Array.getElem?_eq_some_iff.mp h
  exact List.drop_eq_getElem_cons hlt

theorem passed_of_end (h : ahead tokens c = t :: rest) (hk : t.kind = .endOfInput) :
    passed tokens c = c := by
  simp [passed, seen_of_ahead h, hk]

end

/-! ## Two results apart -/

/-- Two results, of which the first is the second one `n` tokens further on. Neither is a fault, and
the second has neither gone back from the cursor `c` nor passed the place `bound`. -/
inductive Displaced (n bound : Nat) (c : Cursor) {α : Type} :
    EStateM.Result (Halt ParseError) Cursor α → EStateM.Result (Halt ParseError) Cursor α → Prop
  | ok (a : α) {c' : Cursor} (hle : c.position ≤ c'.position) (hbound : c'.position ≤ bound) :
    Displaced n bound c (.ok a (forward c' n)) (.ok a c')
  | error (e : ParseError) {c' : Cursor} (hle : c.position ≤ c'.position)
    (hbound : c'.position ≤ bound) :
    Displaced n bound c (.error (.error e) (forward c' n)) (.error (.error e) c')

/-- The first reading does `n` tokens further on what the second one does. -/
def Resumes (n bound : Nat) {α : Type} (r r' : Reading α) : Prop :=
  ∀ c, c.position ≤ bound → Displaced n bound c (r (forward c n)) (r' c)

section
variable {n bound : Nat} {c : Cursor} {α β : Type}

theorem Displaced.weaken {x y : EStateM.Result (Halt ParseError) Cursor α} {c' : Cursor}
    (h : Displaced n bound c' x y) (hle : c.position ≤ c'.position) : Displaced n bound c x y := by
  cases h with
  | ok a hle' hbound => exact .ok a (Nat.le_trans hle hle') hbound
  | error e hle' hbound => exact .error e (Nat.le_trans hle hle') hbound

/-- A nesting is closed at the same places on either side, also by an error. -/
theorem Displaced.shallower {x y : EStateM.Result (Halt ParseError) Cursor α}
    (h : Displaced n bound (deeper c) x y) :
    Displaced n bound c (shallower x) (shallower y) := by
  cases h with
  | @ok a c' hle hbound =>
    show Displaced n bound c (.ok a (forward { c' with depth := c'.depth - 1 } n))
      (.ok a { c' with depth := c'.depth - 1 })
    exact .ok a hle hbound
  | @error e c' hle hbound =>
    show Displaced n bound c (.error (.error e) (forward { c' with depth := c'.depth - 1 } n))
      (.error (.error e) { c' with depth := c'.depth - 1 })
    exact .error e hle hbound

theorem Displaced.bind {r r' : Reading α} {f f' : α → Reading β}
    (h : Displaced n bound c (r (forward c n)) (r' c))
    (hf : ∀ a c', c.position ≤ c'.position → c'.position ≤ bound →
      Displaced n bound c' (f a (forward c' n)) (f' a c')) :
    Displaced n bound c ((r >>= f) (forward c n)) ((r' >>= f') c) := by
  generalize hr : r (forward c n) = x at h
  generalize hr' : r' c = y at h
  cases h with
  | ok a hle hbound =>
    rw [bind_of_ok hr, bind_of_ok hr']
    exact (hf a _ hle hbound).weaken hle
  | error e hle hbound =>
    rw [bind_of_error hr, bind_of_error hr']
    exact .error e hle hbound

end

/-! ## Two streams in common -/

/-- Behind its first `n` tokens the one stream goes on like the other one, up to an end marker of
that one at the place `bound`. -/
structure Stretch (tokens tokens' : Array Token) (n bound : Nat) : Prop where
  getElem?_eq : ∀ i ≤ bound, tokens[i + n]? = tokens'[i]?
  ends : ∃ t, tokens'[bound]? = some t ∧ t.kind = .endOfInput

namespace Stretch

variable {tokens tokens' : Array Token} {n bound limit : Nat} {c : Cursor}

theorem lt_size' (h : Stretch tokens tokens' n bound) : bound < tokens'.size := by
  obtain ⟨t, ht, -⟩ := h.ends
  exact (Array.getElem?_eq_some_iff.mp ht).1

theorem lt_size (h : Stretch tokens tokens' n bound) : bound + n < tokens.size := by
  obtain ⟨t, ht, -⟩ := h.ends
  rw [← h.getElem?_eq bound (Nat.le_refl _)] at ht
  exact (Array.getElem?_eq_some_iff.mp ht).1

/-- The streams show the same token, which is the end marker at the bound. -/
theorem exists_ahead (h : Stretch tokens tokens' n bound) (hc : c.position ≤ bound) :
    ∃ t rest rest', ahead tokens (forward c n) = t :: rest ∧ ahead tokens' c = t :: rest' ∧
      (t.kind ≠ .endOfInput → c.position < bound) := by
  have hsize := h.lt_size
  have hsize' := h.lt_size'
  have ht' := Array.getElem?_eq_getElem (Nat.lt_of_le_of_lt hc hsize')
  have ht := (h.getElem?_eq _ hc).trans ht'
  refine ⟨_, _, _, ahead_eq_cons ht, ahead_eq_cons ht', fun hk => ?_⟩
  refine Nat.lt_of_le_of_ne hc fun heq => hk ?_
  obtain ⟨u, hu, hend⟩ := h.ends
  rw [← heq, ht'] at hu
  exact Option.some.inj hu ▸ hend

theorem passed_displaced (h : Stretch tokens tokens' n bound) (hc : c.position ≤ bound) {α : Type}
    (a : α) : Displaced n bound c (.ok a (passed tokens (forward c n)))
      (.ok a (passed tokens' c)) := by
  obtain ⟨t, rest, rest', ha, ha', hlt⟩ := h.exists_ahead hc
  by_cases hk : t.kind = .endOfInput
  · rw [passed_of_end ha hk, passed_of_end ha' hk]
    exact .ok a (Nat.le_refl _) hc
  · rw [passed_of_ahead ha hk, passed_of_ahead ha' hk, forward_comm]
    exact .ok a (Nat.le_succ _) (hlt hk)

theorem current (h : Stretch tokens tokens' n bound) :
    Resumes n bound (current tokens) (current tokens') := by
  intro c hc
  obtain ⟨t, rest, rest', ha, ha', -⟩ := h.exists_ahead hc
  rw [current_of_ahead ha, current_of_ahead ha']
  exact .ok t (Nat.le_refl _) hc

theorem operator? (h : Stretch tokens tokens' n bound) (wanted : TokenKind → Bool) :
    Resumes n bound (operator? tokens wanted) (operator? tokens' wanted) := by
  intro c hc
  obtain ⟨t, rest, rest', ha, ha', -⟩ := h.exists_ahead hc
  by_cases hw : wanted t.kind
  · simp only [Reading.operator?, seen_of_ahead ha, seen_of_ahead ha', if_pos hw,
      getElem?_of_ahead ha, getElem?_of_ahead ha']
    exact h.passed_displaced hc (some t)
  · rw [operator?_of_unwanted ha hw, operator?_of_unwanted ha' hw]
    exact .ok none (Nat.le_refl _) hc

theorem nested (h : Stretch tokens tokens' n bound) {body body' : Reading Measured}
    (hb : Resumes n bound body body') :
    Resumes n bound (nested tokens limit body) (nested tokens' limit body') := by
  intro c hc
  by_cases hl : c.depth < limit
  · rw [nested_of_lt (show (forward c n).depth < limit from hl), nested_of_lt hl]
    exact (hb (deeper c) hc).shallower
  · obtain ⟨t, rest, rest', ha, ha', -⟩ := h.exists_ahead hc
    rw [nested_of_le ha (Nat.le_of_not_lt hl), nested_of_le ha' (Nat.le_of_not_lt hl)]
    exact .error _ (Nat.le_refl _) hc

theorem checkHeight (top : Token) (height : Nat) :
    Resumes n bound (checkHeight limit top height) (checkHeight limit top height) := by
  intro c hc
  by_cases hh : height ≤ limit
  · rw [checkHeight_of_le hh, checkHeight_of_le hh]
    exact .ok () (Nat.le_refl _) hc
  · rw [checkHeight_of_lt (Nat.lt_of_not_le hh), checkHeight_of_lt (Nat.lt_of_not_le hh)]
    exact .error _ (Nat.le_refl _) hc

/-- Each step of a fold passes a token before the end marker, so steps beyond the number of these
make no difference. -/
theorem fold_displaced (h : Stretch tokens tokens' n bound) {level : Level}
    {operand operand' : Reading Measured} (ho : Resumes n bound operand operand')
    {steps steps' : Nat} (left : Measured) (hc : c.position ≤ bound)
    (hsteps : bound < c.position + steps) (hsteps' : bound < c.position + steps') :
    Displaced n bound c (fold tokens limit level operand steps left (forward c n))
      (fold tokens' limit level operand' steps' left c) := by
  induction steps generalizing steps' left c with
  | zero => omega
  | succ steps ih =>
    obtain ⟨steps', rfl⟩ : ∃ k, steps' = k + 1 := ⟨steps' - 1, by omega⟩
    obtain ⟨t, rest, rest', ha, ha', hlt⟩ := h.exists_ahead hc
    by_cases ht : t.kind.level? = some level
    · have hc' : (forward c 1).position ≤ bound := hlt fun hk => by
        simp [hk, TokenKind.level?] at ht
      rw [fold_of_operator ha ht, fold_of_operator ha' ht, forward_comm]
      suffices h' : Displaced n bound (forward c 1)
          (foldRight tokens limit level operand steps left t (forward (forward c 1) n))
          (foldRight tokens' limit level operand' steps' left t (forward c 1)) from
        h'.weaken (Nat.le_succ c.position)
      refine (ho _ hc').bind fun right c₁ hle₁ hbound₁ => ?_
      refine (checkHeight t _ c₁ hbound₁).bind fun _ c₂ hle₂ hbound₂ => ?_
      have hpassed : c.position + 1 ≤ c₂.position := Nat.le_trans hle₁ hle₂
      exact ih _ hbound₂ (by omega) (by omega)
    · rw [fold_of_other ha ht, fold_of_other ha' ht]
      exact .ok left (Nat.le_refl _) hc

theorem stepwise (h : Stretch tokens tokens' n bound) (limit : Nat) :
    Stepwise (Resumes n bound) tokens tokens' limit where
  pure a _ hc := .ok a (Nat.le_refl _) hc
  refuse _ _ _ hc := .error _ (Nat.le_refl _) hc
  bind hr hf c hc := (hr c hc).bind fun a c' _ hc' => hf a c' hc'
  current := h.current
  advance _ hc := h.passed_displaced hc ()
  operator? := h.operator?
  nested := h.nested
  fold level _ _ ho left c hc := by
    have hsize := h.lt_size
    have hsize' := h.lt_size'
    exact h.fold_displaced ho left hc (by omega) (by omega)

/-- An attempt on the one stream is the attempt on the other one, so much further on. It has no
fault, and the end marker is not passed. -/
theorem exists_read {tokens tokens' : List Token}
    (h : Stretch tokens.toArray tokens'.toArray n bound) (limit : Nat) (hc : c.position ≤ bound) :
    ∃ a, Expr.read tokens' limit c = .ok a ∧ a.cursor.position ≤ bound ∧
      a.cursor.depth = c.depth ∧ (a.expr = none ↔ a.error ≠ none) ∧
      Expr.read tokens limit (forward c n) = .ok { a with cursor := forward a.cursor n } := by
  have hsize := h.lt_size
  have hsize' := h.lt_size'
  have hne : tokens ≠ [] := by
    rintro rfl
    exact absurd hsize (Nat.not_lt_zero _)
  have hne' : tokens' ≠ [] := by
    rintro rfl
    exact absurd hsize' (Nat.not_lt_zero _)
  have hwhole := (h.stepwise limit).whole c hc
  have hdepth := (KeepsDepth.stepwise tokens'.toArray limit).whole c
  generalize hr : whole tokens.toArray limit (forward c n) = x at hwhole
  generalize hr' : whole tokens'.toArray limit c = y at hwhole hdepth
  cases hwhole with
  | ok e hle hbound =>
    exact ⟨_, read_of_ok hne' hr', hbound, hdepth, by simp, read_of_ok hne hr⟩
  | error e hle hbound =>
    exact ⟨_, read_of_error hne' hr', hbound, hdepth, by simp, read_of_error hne hr⟩

end Stretch

/-! ## Streams with an end marker -/

section
variable {body : List Token} {last : Token}

/-- What comes behind an end marker makes no difference. -/
theorem stretch_append (hlast : last.kind = .endOfInput) (rest : List Token) :
    Stretch (body ++ last :: rest).toArray (body ++ [last]).toArray 0 body.length where
  getElem?_eq i hi := by
    have hlt : i < (body ++ [last]).length := by
      rw [List.length_append, List.length_singleton]
      omega
    rw [List.getElem?_toArray, List.getElem?_toArray, List.append_cons]
    exact List.getElem?_append_left hlt
  ends := ⟨last, by simp, hlast⟩

/-- Nor does it make a difference whether tokens in front are passed or missing. -/
theorem stretch_drop (hlast : last.kind = .endOfInput) (rest : List Token) {n : Nat}
    (hn : n ≤ body.length) : Stretch (body ++ last :: rest).toArray
      ((body ++ last :: rest).drop n).toArray n (body.length - n) where
  getElem?_eq i _ := by
    simp only [List.getElem?_toArray, List.getElem?_drop, Nat.add_comm]
  ends := by
    refine ⟨last, ?_, hlast⟩
    rw [List.getElem?_toArray, List.getElem?_drop, Nat.add_sub_cancel' hn,
      List.getElem?_append_right (Nat.le_refl _), Nat.sub_self]
    rfl

theorem forward_start {c : Cursor} (hd : c.depth = 0) : forward .start c.position = c := by
  cases c
  subst hd
  simp [forward, Cursor.start]

end

end Reading

/-! ## Attempts one after the other -/

namespace Attempt

/-- The attempt has not passed the place `bound`, has left no nesting open, and has come to either a
tree or an error. -/
structure IsSettled (bound : Nat) (a : Attempt) : Prop where
  position_le : a.cursor.position ≤ bound
  depth_eq : a.cursor.depth = 0
  expr_eq_none_iff : a.expr = none ↔ a.error ≠ none

/-- The attempt has come to what one comes to that has only the tokens from the cursor on. -/
def IsFresh (tokens : List Token) (limit : Nat) (c : Cursor) (a : Attempt) : Prop :=
  ∃ fresh, Expr.read (tokens.drop c.position) limit .start = .ok fresh ∧
    a.expr = fresh.expr ∧ a.error = fresh.error

end Attempt

/-- So many attempts, each of which starts where the one before has come to. -/
def Expr.readings (tokens : List Token) (limit : Nat) : Nat → Cursor → Except Fault (List Attempt)
  | 0, _ => .ok []
  | calls + 1, c => do
    let a ← Expr.read tokens limit c
    return a :: (← readings tokens limit calls a.cursor)

namespace Reading

variable {body : List Token} {last : Token}

theorem exists_attempt (hlast : last.kind = .endOfInput) (limit : Nat) {c : Cursor}
    (hc : c.position ≤ body.length) (hd : c.depth = 0) :
    ∃ a : Attempt, a.IsSettled body.length ∧ ∀ rest,
      Expr.read (body ++ last :: rest) limit c = .ok a ∧
        a.IsFresh (body ++ last :: rest) limit c := by
  -- the stream that ends with its marker has the attempt that any longer one has
  obtain ⟨a, ha, hbound, hdepth, herror, -⟩ := (stretch_append hlast []).exists_read limit hc
  refine ⟨a, ⟨hbound, hdepth.trans hd, herror⟩, fun rest => ?_⟩
  have hread : Expr.read (body ++ last :: rest) limit c = .ok a := by
    obtain ⟨a', ha', -, -, -, hread⟩ := (stretch_append hlast rest).exists_read limit hc
    obtain rfl : a = a' := Except.ok.inj (ha.symm.trans ha')
    exact hread
  refine ⟨hread, ?_⟩
  -- the stream without what has been passed is read from its start on
  obtain ⟨fresh, hfresh, -, -, -, hahead⟩ :=
    (stretch_drop hlast rest hc).exists_read limit (c := .start) (Nat.zero_le _)
  rw [forward_start hd, hread] at hahead
  obtain rfl := Except.ok.inj hahead
  exact ⟨fresh, hfresh, rfl, rfl⟩

theorem exists_readings (hlast : last.kind = .endOfInput) (limit calls : Nat) {c : Cursor}
    (hc : c.position ≤ body.length) (hd : c.depth = 0) :
    ∃ attempts : List Attempt, attempts.length = calls ∧
      (∀ a ∈ attempts, a.IsSettled body.length) ∧ ∀ rest,
        Expr.readings (body ++ last :: rest) limit calls c = .ok attempts ∧
          ∀ p ∈ (c :: attempts.map (·.cursor)).zip attempts,
            p.2.IsFresh (body ++ last :: rest) limit p.1 := by
  induction calls generalizing c with
  | zero => exact ⟨[], rfl, by simp, fun _ => ⟨rfl, by simp⟩⟩
  | succ calls ih =>
    obtain ⟨a, hsettled, hread⟩ := exists_attempt hlast limit hc hd
    obtain ⟨attempts, hlength, hall, hreads⟩ := ih hsettled.position_le hsettled.depth_eq
    refine ⟨a :: attempts, by rw [List.length_cons, hlength],
      List.forall_mem_cons.mpr ⟨hsettled, hall⟩, fun rest => ⟨?_, ?_⟩⟩
    · rw [Expr.readings, (hread rest).1]
      exact congrArg (· >>= fun as => .ok (a :: as)) (hreads rest).1
    · exact List.forall_mem_cons.mpr ⟨(hread rest).2, (hreads rest).2⟩

/-- Of a stream with an end marker, expressions can be read again and again, whatever becomes of
each. No attempt faults, goes past the end marker or leaves a nesting open; each comes to what it
would come to if the stream began at its cursor; and what is behind the end marker makes no
difference to any of them. -/
theorem readings_safe (body : List Token) (hlast : last.kind = .endOfInput) (limit calls : Nat) :
    ∃ attempts : List Attempt, attempts.length = calls ∧
      (∀ a ∈ attempts, a.IsSettled body.length) ∧ ∀ rest,
        Expr.readings (body ++ last :: rest) limit calls .start = .ok attempts ∧
          ∀ p ∈ (Cursor.start :: attempts.map (·.cursor)).zip attempts,
            p.2.IsFresh (body ++ last :: rest) limit p.1 :=
  exists_readings hlast limit calls (Nat.zero_le _) rfl

/-- Two attempts on `--nil` are given up, as the tree would be higher than one node; the third one
finds the tree `nil`. -/
theorem readings_negations :
    let minus : Token := ⟨1, .minus, "-", none⟩
    let nil : Token := ⟨1, .keyword .nilWord, "nil", none⟩
    (Token.endMarker 1).kind = .endOfInput ∧
      ∃ attempts : List Attempt, attempts.length = 3 ∧
        attempts.map (fun a => (a.cursor.position, a.expr)) =
            [(1, none), (2, none), (3, some (.literal nil))] ∧
          (∀ a ∈ attempts, a.IsSettled 3) ∧ ∀ rest,
            Expr.readings ([minus, minus, nil] ++ Token.endMarker 1 :: rest) 1 3 .start =
                .ok attempts ∧
              ∀ p ∈ (Cursor.start :: attempts.map (·.cursor)).zip attempts,
                p.2.IsFresh ([minus, minus, nil] ++ Token.endMarker 1 :: rest) 1 p.1 := by
  intro minus nil
  have hlast : (Token.endMarker 1).kind = .endOfInput := rfl
  obtain ⟨attempts, hlength, hall, hreads⟩ := readings_safe [minus, minus, nil] hlast 1 3
  refine ⟨hlast, attempts, hlength, ?_, hall, hreads⟩
  have hfound : Expr.readings ([minus, minus, nil] ++ [Token.endMarker 1]) 1 3 .start =
      .ok [⟨none, some (.atToken minus .nestsTooDeeply), ⟨1, 0⟩⟩,
        ⟨none, some (.atToken nil .nestsTooDeeply), ⟨2, 0⟩⟩,
        ⟨some (.literal nil), none, ⟨3, 0⟩⟩] := rfl
  obtain rfl := Except.ok.inj ((hreads []).1.symm.trans hfound)
  rfl

end Reading

end Lox
