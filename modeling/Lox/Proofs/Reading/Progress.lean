import Lox.Proofs.Reading.Depth
import Lox.Proofs.Reading.Steps

/-!
Progress. On any stream, under any limit and however a reading ends, it does not go back
(`Advances`), and a fold does not lose height.
-/

namespace Lox.Reading

/-- A reading does not go back. -/
def Advances {α : Type} (r : Reading α) : Prop :=
  ∀ c, c.position ≤ (endOf (r c)).position

namespace Advances

variable {α β : Type} {tokens : Array Token} {limit : Nat}

theorem of_ok {r : Reading α} (h : Advances r) {a : α} {c c' : Cursor} (hr : r c = .ok a c') :
    c.position ≤ c'.position := by
  have hc := h c
  rwa [hr] at hc

theorem pure (a : α) : Advances (pure a) :=
  fun _ => Nat.le_refl _

theorem bind {r : Reading α} {f : α → Reading β} (hr : Advances r) (hf : ∀ a, Advances (f a)) :
    Advances (r >>= f) := by
  intro c
  cases hrun : r c with
  | ok a c' =>
    rw [bind_of_ok hrun]
    exact Nat.le_trans (hr.of_ok hrun) (hf a c')
  | error e c' =>
    have hc := hr c
    rw [hrun] at hc
    rw [bind_of_error hrun]
    exact hc

theorem le_passed (tokens : Array Token) (c : Cursor) :
    c.position ≤ (passed tokens c).position := by
  unfold passed
  split
  · exact Nat.le_refl _
  · exact Nat.le_succ _

theorem operator? (wanted : TokenKind → Bool) : Advances (operator? tokens wanted) := by
  intro c
  unfold Reading.operator?
  split
  · split <;> exact le_passed tokens c
  · exact Nat.le_refl _

theorem checkHeight (top : Token) (height : Nat) : Advances (checkHeight limit top height) := by
  unfold Reading.checkHeight
  split <;> exact fun _ => Nat.le_refl _

theorem endOf_shallower_position (x : EStateM.Result (Halt ParseError) Cursor α) :
    (endOf (shallower x)).position = (endOf x).position := by
  cases x <;> rfl

theorem nested {body : Reading α} (hb : Advances body) : Advances (nested tokens limit body) := by
  intro c
  by_cases hl : c.depth < limit
  · rw [nested_of_lt hl, endOf_shallower_position]
    exact hb (deeper c)
  · rw [nested_of_not_lt hl]
    exact Nat.le_refl _

section
variable {level : Level} {operand : Reading Measured} (ho : Advances operand)
include ho

theorem fold (steps : Nat) (left : Measured) :
    Advances (fold tokens limit level operand steps left) := by
  induction steps generalizing left with
  | zero => exact pure left
  | succ steps ih =>
    refine bind (operator? _) fun op? => ?_
    cases op? with
    | none => exact pure left
    | some op => exact bind ho fun right => bind (checkHeight op _) fun _ => ih _

theorem joined (steps : Nat) (left : Measured) (op : Token) (right : Measured) :
    Advances (joined tokens limit level operand steps left op right) :=
  bind (checkHeight op _) fun _ => fold ho steps _

theorem foldRight (steps : Nat) (left : Measured) (op : Token) :
    Advances (foldRight tokens limit level operand steps left op) :=
  bind ho fun right => joined ho steps left op right

end

theorem stepwise (tokens : Array Token) (limit : Nat) :
    Stepwise (fun r _ => Advances r) tokens tokens limit where
  pure := pure
  refuse _ _ _ := Nat.le_refl _
  bind hr hf := bind hr hf
  current _ := Nat.le_refl _
  advance c := le_passed tokens c
  operator? := operator?
  nested := nested
  fold _ _ _ ho left := fold ho _ left

theorem primary {inner : Reading Measured} (hi : Advances inner) :
    Advances (primary tokens limit inner) :=
  @Stepwise.primary _ tokens tokens limit (stepwise tokens limit) inner inner hi

theorem capped (top : Token) (m : Measured) : Advances (capped limit top m) :=
  bind (checkHeight top _) fun _ => pure m

theorem closing (opening : Token) (tree : Measured) :
    Advances (closing tokens limit opening tree) := by
  refine bind (fun _ => Nat.le_refl _) fun close => ?_
  split
  · exact bind (fun c => le_passed tokens c) fun _ => capped opening _
  · exact fun _ => Nat.le_refl _

end Advances

/-- A fold takes its left operand into the tree. -/
theorem le_height_of_fold {tokens : Array Token} {limit : Nat} {level : Level}
    {operand : Reading Measured} {steps : Nat} {left m : Measured} {c c' : Cursor}
    (h : fold tokens limit level operand steps left c = .ok m c') : left.height ≤ m.height := by
  induction steps generalizing left c with
  | zero =>
    cases h
    exact Nat.le_refl _
  | succ steps ih =>
    obtain ⟨op?, c₁, -, h⟩ := exists_of_bind_eq_ok h
    cases op? with
    | none =>
      cases h
      exact Nat.le_refl _
    | some op =>
      obtain ⟨right, c₂, -, h⟩ := exists_of_bind_eq_ok h
      obtain ⟨_, c₃, -, h⟩ := exists_of_bind_eq_ok h
      have hheight : max left.height right.height + 1 ≤ m.height := ih h
      omega

end Lox.Reading
