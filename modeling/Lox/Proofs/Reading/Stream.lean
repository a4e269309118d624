import Lox.Expr.Reading

/-!
What is ahead of a cursor. As long as an end marker is ahead, the single steps of a reading take
the list of tokens ahead apart like any list: the token under the cursor is its head, and passing a
token that is no end marker leaves its tail. A nesting only changes the depth of the cursor, before
and behind what is nested (`nested_of_lt`).
-/

namespace Lox.Reading

section
variable (tokens : Array Token)

/-- The tokens that have not been passed. -/
def ahead (c : Cursor) : List Token :=
  tokens.toList.drop c.position

def EndAhead (c : Cursor) : Prop :=
  ∃ t ∈ ahead tokens c, t.kind = .endOfInput

end

/-- The cursor that has passed `n` more tokens. -/
def forward (c : Cursor) (n : Nat) : Cursor :=
  { c with position := c.position + n }

@[simp] theorem forward_depth (c : Cursor) (n : Nat) : (forward c n).depth = c.depth := rfl

@[simp] theorem forward_forward (c : Cursor) (m n : Nat) :
    forward (forward c m) n = forward c (m + n) := by
  simp [forward, Nat.add_assoc]

theorem forward_append {c : Cursor} (span span' : List Token) :
    forward (forward c span.length) span'.length = forward c (span ++ span').length := by
  rw [forward_forward, List.length_append]

theorem forward_cons {c : Cursor} (t : Token) (span : List Token) :
    forward (forward c 1) span.length = forward c (t :: span).length :=
  forward_append [t] span

theorem forward_concat {c : Cursor} (t : Token) (span : List Token) :
    forward (forward c span.length) 1 = forward c (span ++ [t]).length :=
  forward_append span [t]

variable {tokens : Array Token} {c : Cursor} {t : Token} {rest : List Token}

theorem length_ahead_le (tokens : Array Token) (c : Cursor) :
    (ahead tokens c).length ≤ tokens.size := by
  simp [ahead]

theorem ahead_forward {span : List Token} (h : ahead tokens c = span ++ rest) :
    ahead tokens (forward c span.length) = rest := by
  have hd : (ahead tokens c).drop span.length = rest := by rw [h, List.drop_left]
  simpa [ahead, forward, List.drop_drop] using hd

theorem EndAhead.exists_cons (h : EndAhead tokens c) : ∃ t rest, ahead tokens c = t :: rest := by
  obtain ⟨u, hu, -⟩ := h
  exact List.exists_cons_of_ne_nil (List.ne_nil_of_mem hu)

/-- An end marker stays ahead behind tokens that are none. -/
theorem EndAhead.forward {span : List Token} (h : EndAhead tokens c)
    (ha : ahead tokens c = span ++ rest) (hspan : ∀ t ∈ span, t.kind ≠ .endOfInput) :
    EndAhead tokens (forward c span.length) := by
  obtain ⟨u, hu, hk⟩ := h
  rw [ha] at hu
  refine ⟨u, ?_, hk⟩
  rw [ahead_forward ha]
  exact (List.mem_append.mp hu).resolve_left fun hm => hspan u hm hk

/-! ## Single steps -/

theorem getElem?_of_ahead (h : ahead tokens c = t :: rest) : tokens[c.position]? = some t := by
  have hh : (tokens.toList.drop c.position).head? = some t := by
    rw [show tokens.toList.drop c.position = t :: rest from h]
    rfl
  simpa [List.head?_drop] using hh

theorem seen_of_ahead (h : ahead tokens c = t :: rest) : seen tokens c = t := by
  simp [seen, getElem?_of_ahead h]

theorem passed_of_ahead (h : ahead tokens c = t :: rest) (hk : t.kind ≠ .endOfInput) :
    passed tokens c = forward c 1 := by
  simp [passed, seen_of_ahead h, hk, Reading.forward]

theorem ahead_forward_one (h : ahead tokens c = t :: rest) :
    ahead tokens (forward c 1) = rest :=
  ahead_forward (show ahead tokens c = [t] ++ rest from h)

theorem EndAhead.forward_one (h : EndAhead tokens c) (ha : ahead tokens c = t :: rest)
    (hk : t.kind ≠ .endOfInput) : EndAhead tokens (Reading.forward c 1) :=
  h.forward (show ahead tokens c = [t] ++ rest from ha) (by simpa using hk)

theorem operator?_of_wanted {wanted : TokenKind → Bool} (h : ahead tokens c = t :: rest)
    (hk : t.kind ≠ .endOfInput) (hw : wanted t.kind) :
    operator? tokens wanted c = .ok (some t) (forward c 1) := by
  simp [operator?, seen_of_ahead h, hw, getElem?_of_ahead h, passed_of_ahead h hk]

theorem operator?_of_unwanted {wanted : TokenKind → Bool} (h : ahead tokens c = t :: rest)
    (hw : ¬ wanted t.kind) : operator? tokens wanted c = .ok none c := by
  simp [operator?, seen_of_ahead h, hw]

/-! ## Steps in sequence -/

theorem bind_of_ok {α β : Type} {x : Reading α} {f : α → Reading β} {a : α} {c c₁ : Cursor}
    (h : x c = .ok a c₁) : (x >>= f) c = f a c₁ := by
  simp [bind, EStateM.bind, h]

theorem bind_of_error {α β : Type} {x : Reading α} {f : α → Reading β} {e : Halt ParseError}
    {c c₁ : Cursor} (h : x c = .error e c₁) : (x >>= f) c = .error e c₁ := by
  simp [bind, EStateM.bind, h]

theorem exists_of_bind_eq_ok {α β : Type} {x : Reading α} {f : α → Reading β} {b : β}
    {c c₂ : Cursor} (h : (x >>= f) c = .ok b c₂) : ∃ a c₁, x c = .ok a c₁ ∧ f a c₁ = .ok b c₂ := by
  cases hr : x c with
  | ok a c₁ =>
    rw [bind_of_ok hr] at h
    exact ⟨a, c₁, rfl, h⟩
  | error e c₁ =>
    rw [bind_of_error hr] at h
    cases h

/-! ## Nestings -/

section
variable {α : Type} {limit : Nat}

/-- The cursor one nesting deeper. -/
def deeper (c : Cursor) : Cursor :=
  { c with depth := c.depth + 1 }

@[simp] theorem deeper_depth (c : Cursor) : (deeper c).depth = c.depth + 1 := rfl

/-- The result one nesting higher up. -/
def shallower : EStateM.Result (Halt ParseError) Cursor α →
    EStateM.Result (Halt ParseError) Cursor α
  | .ok a c => .ok a { c with depth := c.depth - 1 }
  | .error e c => .error e { c with depth := c.depth - 1 }

theorem nested_of_lt (h : c.depth < limit) (body : Reading α) :
    nested tokens limit body c = shallower (body (deeper c)) := by
  rw [nested, if_neg (Nat.not_le.mpr h), deeper]
  cases body { c with depth := c.depth + 1 } <;> rfl

theorem nested_of_not_lt (h : ¬ c.depth < limit) (body : Reading α) :
    nested tokens limit body c = .error (.error (.atToken (seen tokens c) .nestsTooDeeply)) c := by
  rw [nested, if_pos (Nat.le_of_not_lt h)]
  rfl

theorem nested_of_le {body : Reading α} (ha : ahead tokens c = t :: rest) (h : limit ≤ c.depth) :
    nested tokens limit body c = .error (.error (.atToken t .nestsTooDeeply)) c := by
  rw [nested_of_not_lt (Nat.not_lt.mpr h), seen_of_ahead ha]

theorem nested_of_ok {body : Reading α} {a : α} {n : Nat} (h : c.depth < limit)
    (hb : body (deeper c) = .ok a (forward (deeper c) n)) :
    nested tokens limit body c = .ok a (forward c n) := by
  rw [nested_of_lt h, hb]
  rfl

theorem nested_of_error {body : Reading α} {e : Halt ParseError} {c' : Cursor}
    (h : c.depth < limit) (hb : body (deeper c) = .error e c') :
    ∃ c'', nested tokens limit body c = .error e c'' := by
  rw [nested_of_lt h, hb]
  exact ⟨_, rfl⟩

end

end Lox.Reading
