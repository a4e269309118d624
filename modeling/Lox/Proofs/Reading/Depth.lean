import Lox.Proofs.Reading.Stepwise
import Lox.Proofs.Reading.Stream

/-!
Open nestings. On any stream, under any limit and however a reading ends, it leaves as many nestings
open as it has found open (`KeepsDepth`), so one that begins with none ends with none.
-/

namespace Lox.Reading

/-- The cursor at which a reading has ended, whether it has succeeded or not. -/
def endOf {α : Type} : EStateM.Result (Halt ParseError) Cursor α → Cursor
  | .ok _ c => c
  | .error _ c => c

def KeepsDepth {α : Type} (r : Reading α) : Prop :=
  ∀ c, (endOf (r c)).depth = c.depth

namespace KeepsDepth

variable {α β : Type} {tokens : Array Token} {limit : Nat}

theorem bind {r : Reading α} {f : α → Reading β} (hr : KeepsDepth r)
    (hf : ∀ a, KeepsDepth (f a)) : KeepsDepth (r >>= f) := by
  intro c
  have hc := hr c
  cases hrun : r c with
  | ok a c' =>
    rw [hrun] at hc
    rw [bind_of_ok hrun, hf a c']
    exact hc
  | error e c' =>
    rw [hrun] at hc
    rw [bind_of_error hrun]
    exact hc

theorem passed_depth (c : Cursor) : (passed tokens c).depth = c.depth := by
  unfold passed
  split <;> rfl

theorem operator? (wanted : TokenKind → Bool) : KeepsDepth (operator? tokens wanted) := by
  intro c
  unfold Reading.operator?
  split
  · split <;> exact passed_depth c
  · rfl

theorem checkHeight (top : Token) (height : Nat) : KeepsDepth (checkHeight limit top height) := by
  unfold Reading.checkHeight
  split <;> exact fun _ => rfl

/-- Closing takes back the one nesting that opening has added. -/
theorem endOf_shallower_depth (x : EStateM.Result (Halt ParseError) Cursor α) :
    (endOf (shallower x)).depth = (endOf x).depth - 1 := by
  cases x <;> rfl

/-- The nesting that is opened for the body is closed behind it, also where the body fails. -/
theorem nested {body : Reading α} (hb : KeepsDepth body) :
    KeepsDepth (nested tokens limit body) := by
  intro c
  by_cases hl : c.depth < limit
  · rw [nested_of_lt hl, endOf_shallower_depth, hb, deeper_depth, Nat.add_sub_cancel]
  · rw [nested_of_not_lt hl]
    rfl

theorem fold {level : Level} {operand : Reading Measured} (ho : KeepsDepth operand) (steps : Nat)
    (left : Measured) : KeepsDepth (fold tokens limit level operand steps left) := by
  induction steps generalizing left with
  | zero => exact fun _ => rfl
  | succ steps ih =>
    refine bind (operator? _) fun op? => ?_
    cases op? with
    | none => exact fun _ => rfl
    | some op => exact bind ho fun right => bind (checkHeight op _) fun _ => ih _

theorem stepwise (tokens : Array Token) (limit : Nat) :
    Stepwise (fun r _ => KeepsDepth r) tokens tokens limit where
  pure _ _ := rfl
  refuse _ _ _ := rfl
  bind hr hf := bind hr hf
  current _ := rfl
  advance c := passed_depth c
  operator? := operator?
  nested := nested
  fold _ _ _ ho left := fold ho _ left

end KeepsDepth

end Lox.Reading
