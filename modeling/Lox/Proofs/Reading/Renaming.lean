import Lox.Proofs.Expr.Lines
import Lox.Proofs.Reading.Whole

/-!
Readings look at nothing but the kinds of tokens. When the tokens of a stream are replaced by others
of the same kinds, a reading takes the same steps and ends with the same tree of the other tokens,
or with the same error at the other token (`read_map`). So it only copies the lines of its tokens
(`Expr.read_unplaced`).
-/

namespace Lox

def Measured.map (f : Token → Token) (m : Measured) : Measured :=
  ⟨m.expr.map f, m.height⟩

namespace Reading

section
variable (f : Token → Token) {α β : Type}

/-- The second result is the first one with the tokens renamed, and its value by `g`. -/
def Renamed (g : α → β) : EStateM.Result (Halt ParseError) Cursor α →
    EStateM.Result (Halt ParseError) Cursor β → Prop
  | .ok a c, r => r = .ok (g a) c
  | .error (.error e) c, r =>
    ∃ t cause, e = .atToken t cause ∧ r = .error (.error (.atToken (f t) cause)) c
  | .error (.fault x) c, r => r = .error (.fault x) c

/-- From every cursor on the second reading does what the first one does. -/
def Follows (g : α → β) (r : Reading α) (r' : Reading β) : Prop :=
  ∀ c, Renamed f g (r c) (r' c)

variable {f}

theorem Renamed.shallower {g : α → β} {x : EStateM.Result (Halt ParseError) Cursor α}
    {y : EStateM.Result (Halt ParseError) Cursor β} (h : Renamed f g x y) :
    Renamed f g (shallower x) (shallower y) := by
  cases x with
  | ok a c =>
    rw [h]
    rfl
  | error e c =>
    cases e with
    | error e =>
      obtain ⟨t, cause, he, hy⟩ := h
      rw [hy]
      exact ⟨t, cause, he, rfl⟩
    | fault x =>
      rw [h]
      rfl

end

namespace Follows

variable {f : Token → Token} {α β α' β' : Type} {tokens : Array Token} {limit : Nat}

theorem pure {g : α → β} {a : α} {b : β} (h : b = g a) :
    Follows f g (pure a : Reading α) (pure b) := by
  intro c
  rw [h]
  rfl

theorem refuse {g : α → β} (t : Token) (cause : ParseError.Cause) :
    Follows f g (refuse t cause) (refuse (f t) cause) :=
  fun _ => ⟨t, cause, rfl, rfl⟩

theorem bind {g : α → α'} {h : β → β'} {r : Reading α} {r' : Reading α'} {k : α → Reading β}
    {k' : α' → Reading β'} (hr : Follows f g r r') (hk : ∀ a, Follows f h (k a) (k' (g a))) :
    Follows f h (r >>= k) (r' >>= k') := by
  intro c
  have hc := hr c
  cases hrun : r c with
  | ok a c' =>
    rw [hrun] at hc
    rw [bind_of_ok hrun, bind_of_ok hc]
    exact hk a c'
  | error e c' =>
    rw [hrun] at hc
    rw [bind_of_error hrun]
    cases e with
    | error e =>
      obtain ⟨t, cause, he, hc⟩ := hc
      rw [bind_of_error hc]
      exact ⟨t, cause, he, rfl⟩
    | fault x =>
      rw [bind_of_error hc]
      rfl

theorem checkHeight (top : Token) (height : Nat) :
    Follows f id (checkHeight limit top height) (checkHeight limit (f top) height) := by
  unfold Reading.checkHeight
  split
  · exact refuse top _
  · exact pure rfl

/-! ## Steps over the stream -/

section
variable (hf : ∀ t, (f t).kind = t.kind) (hne : tokens ≠ #[])

section
include hne

theorem seen_map (c : Cursor) : seen (tokens.map f) c = f (seen tokens c) := by
  have hlast : tokens.back? ≠ none := mt Array.back?_eq_none_iff.mp hne
  obtain ⟨last, hlast⟩ := Option.ne_none_iff_exists'.mp hlast
  rw [seen, seen, Array.getElem?_map, Array.back?_map, hlast]
  cases tokens[c.position]? <;> rfl

theorem current : Follows f f (current tokens) (current (tokens.map f)) := by
  intro c
  simp only [Reading.current, seen_map hne]
  rfl

theorem nested {g : α → α'} {body : Reading α} {body' : Reading α'} (hb : Follows f g body body') :
    Follows f g (nested tokens limit body) (nested (tokens.map f) limit body') := by
  intro c
  by_cases hl : c.depth < limit
  · rw [nested_of_lt hl, nested_of_lt hl]
    exact (hb (deeper c)).shallower
  · rw [nested_of_not_lt hl, nested_of_not_lt hl, seen_map hne]
    exact refuse _ _ c

end

include hf hne

theorem passed_map (c : Cursor) : passed (tokens.map f) c = passed tokens c := by
  rw [passed, passed, seen_map hne, hf]

theorem advance : Follows f id (advance tokens) (advance (tokens.map f)) := by
  intro c
  simp only [Reading.advance, passed_map hf hne]
  rfl

theorem operator? (wanted : TokenKind → Bool) :
    Follows f (Option.map f) (operator? tokens wanted) (operator? (tokens.map f) wanted) := by
  intro c
  simp only [Reading.operator?, seen_map hne, passed_map hf hne, hf, Array.getElem?_map,
    Array.size_map]
  split
  · cases tokens[c.position]? <;> rfl
  · rfl

/-! ## The levels -/

theorem fold (level : Level) {operand operand' : Reading Measured}
    (ho : Follows f (Measured.map f) operand operand') (steps : Nat) (left : Measured) :
    Follows f (Measured.map f) (fold tokens limit level operand steps left)
      (fold (tokens.map f) limit level operand' steps (left.map f)) := by
  induction steps generalizing left with
  | zero => exact pure rfl
  | succ steps ih =>
    refine bind (operator? hf hne _) fun op? => ?_
    cases op? with
    | none => exact pure rfl
    | some op =>
      refine bind ho fun right => ?_
      refine bind (checkHeight op _) fun _ => ?_
      exact ih _

theorem chain (level : Level) {operand operand' : Reading Measured}
    (ho : Follows f (Measured.map f) operand operand') :
    Follows f (Measured.map f) (chain tokens limit level operand)
      (chain (tokens.map f) limit level operand') := by
  rw [Reading.chain, Reading.chain, Array.size_map]
  exact bind ho fun left => fold hf hne level ho _ left

theorem binary {operand operand' : Reading Measured}
    (ho : Follows f (Measured.map f) operand operand') :
    Follows f (Measured.map f) (binary tokens limit operand)
      (binary (tokens.map f) limit operand') :=
  chain hf hne .equality <| chain hf hne .comparison <| chain hf hne .sum <|
    chain hf hne .product ho

theorem primary {inner inner' : Reading Measured}
    (hi : Follows f (Measured.map f) inner inner') :
    Follows f (Measured.map f) (primary tokens limit inner)
      (primary (tokens.map f) limit inner') := by
  refine bind (current hne) fun t => ?_
  by_cases hl : t.kind.isLeaf
  · simp only [hf, if_pos hl]
    exact bind (advance hf hne) fun _ => pure rfl
  by_cases hp : t.kind = .leftParen
  · simp only [hf, if_neg hl, if_pos hp]
    refine bind (advance hf hne) fun _ => bind hi fun tree => bind (current hne) fun close => ?_
    by_cases hc : close.kind = .rightParen
    · simp only [hf, if_pos hc]
      exact bind (advance hf hne) fun _ => bind (checkHeight t _) fun _ => pure rfl
    · simp only [hf, if_neg hc]
      exact refuse close _
  · simp only [hf, if_neg hl, if_neg hp]
    exact refuse t _

theorem unary (room : Nat) :
    Follows f (Measured.map f) (unary tokens limit room) (unary (tokens.map f) limit room) := by
  induction room with
  | zero => exact nested hne (bind (current hne) fun t => refuse t _)
  | succ room ih =>
    refine nested hne (bind (operator? hf hne _) fun op? => ?_)
    cases op? with
    | none => exact primary hf hne (binary hf hne ih)
    | some op => exact bind ih fun operand => bind (checkHeight op _) fun _ => pure rfl

theorem whole :
    Follows f (Expr.map f) (whole tokens limit) (whole (tokens.map f) limit) := by
  refine bind (binary hf hne (unary hf hne limit)) fun tree => bind (current hne) fun t => ?_
  by_cases ht : t.kind = .endOfInput
  · simp only [hf, if_pos ht]
    exact pure rfl
  · simp only [hf, if_neg ht]
    exact refuse t _

end

end Follows

/-! ## Attempts -/

/-- The three ends of an attempt, each at the renamed token. -/
theorem read_map {f : Token → Token} (hf : ∀ t, (f t).kind = t.kind) {tokens : List Token}
    (hne : tokens ≠ []) (limit : Nat) (c : Cursor) :
    (∃ e c', Expr.read tokens limit c = .ok ⟨some e, none, c'⟩ ∧
      Expr.read (tokens.map f) limit c = .ok ⟨some (e.map f), none, c'⟩) ∨
    (∃ t cause c', Expr.read tokens limit c = .ok ⟨none, some (.atToken t cause), c'⟩ ∧
      Expr.read (tokens.map f) limit c = .ok ⟨none, some (.atToken (f t) cause), c'⟩) ∨
    ∃ fault, Expr.read tokens limit c = .error fault ∧
      Expr.read (tokens.map f) limit c = .error fault := by
  have hw := @Follows.whole f tokens.toArray limit hf (by simpa using hne) c
  rw [List.map_toArray] at hw
  have hne' : tokens.map f ≠ [] := by simpa using hne
  cases hrun : whole tokens.toArray limit c with
  | ok e c' =>
    rw [hrun] at hw
    exact .inl ⟨e, c', read_of_ok hne hrun, read_of_ok hne' hw⟩
  | error e c' =>
    rw [hrun] at hw
    cases e with
    | error e =>
      obtain ⟨t, cause, rfl, hw⟩ := hw
      exact .inr (.inl ⟨t, cause, c', read_of_error hne hrun, read_of_error hne' hw⟩)
    | fault x =>
      refine .inr (.inr ⟨x, ?_, ?_⟩)
      · simp [Expr.read, hne, hrun]
      · have hx : whole (tokens.map f).toArray limit c = .error (.fault x) c' := hw
        simp [Expr.read, hne, hx]

end Reading

def Attempt.unplaced (a : Attempt) : Attempt :=
  { a with expr := a.expr.map Expr.unplaced, error := a.error.map ParseError.unplaced }

/-- A reading only copies the lines of its tokens. -/
theorem Expr.read_unplaced (tokens : List Token) (limit : Nat) (c : Cursor) :
    read (tokens.map Token.unplaced) limit c = (read tokens limit c).map Attempt.unplaced := by
  by_cases hne : tokens = []
  · rw [hne]
    rfl
  rcases Reading.read_map (f := Token.unplaced) (fun _ => rfl) hne limit c with
    ⟨e, c', h, h'⟩ | ⟨t, cause, c', h, h'⟩ | ⟨x, h, h'⟩ <;> rw [h, h'] <;> rfl

section
variable {tokens tokens' : List Token} (h : tokens'.map Token.unplaced = tokens.map Token.unplaced)
  {limit : Nat} {c c' : Cursor}
include h

theorem Expr.read_of_unplaced_eq {a : Attempt} (hread : read tokens limit c = .ok a) :
    ∃ a', read tokens' limit c = .ok a' ∧ a'.unplaced = a.unplaced := by
  have hmap := read_unplaced tokens' limit c
  rw [h, read_unplaced, hread] at hmap
  cases hread' : read tokens' limit c with
  | error x =>
    rw [hread'] at hmap
    cases hmap
  | ok a' =>
    rw [hread'] at hmap
    exact ⟨a', rfl, (Except.ok.inj hmap).symm⟩

theorem Expr.read_tree_of_unplaced_eq {e : Expr}
    (hread : read tokens limit c = .ok ⟨some e, none, c'⟩) :
    ∃ e', read tokens' limit c = .ok ⟨some e', none, c'⟩ ∧ e'.unplaced = e.unplaced := by
  obtain ⟨⟨expr', error', c''⟩, hread', ha⟩ := read_of_unplaced_eq h hread
  obtain ⟨hexpr, herror, rfl⟩ := Attempt.mk.inj ha
  obtain ⟨e', rfl, he⟩ := Option.map_eq_some_iff.mp hexpr
  cases Option.map_eq_none_iff.mp herror
  exact ⟨e', hread', he⟩

theorem Expr.read_error_of_unplaced_eq {error : ParseError}
    (hread : read tokens limit c = .ok ⟨none, some error, c'⟩) :
    ∃ error', read tokens' limit c = .ok ⟨none, some error', c'⟩ ∧
      error'.unplaced = error.unplaced := by
  obtain ⟨⟨expr', error', c''⟩, hread', ha⟩ := read_of_unplaced_eq h hread
  obtain ⟨hexpr, herror, rfl⟩ := Attempt.mk.inj ha
  cases Option.map_eq_none_iff.mp hexpr
  obtain ⟨error', rfl, he⟩ := Option.map_eq_some_iff.mp herror
  exact ⟨error', hread', he⟩

end

end Lox
