import Lox.Json.Number
import Mathlib.Data.List.TakeDrop

/-!
Steps of the reader, one after another. What is read from texts of any form is told by what comes
out of the reader (`Outcome`), so that what makes it fail is told along with what it gives.
-/

namespace Lox.Json

namespace Reader

/-! ## Steps over the text -/

theorem bind_of_ok {α β : Type} {x : Reader α} {f : α → Reader β} {a : α} {text rest : List Char}
    (h : x text = .ok (a, rest)) : (x >>= f) text = f a rest := by
  simp [bind, StateT.bind, Except.bind, h]

theorem bind_of_error {α β : Type} {x : Reader α} {f : α → Reader β} {flaw : Flaw}
    {text : List Char} (h : x text = .error flaw) : (x >>= f) text = .error flaw := by
  simp [bind, StateT.bind, Except.bind, h]

theorem bind_of_eq {α β : Type} {x y : Reader α} {f : α → Reader β} {text text' : List Char}
    (h : x text = y text') : (x >>= f) text = (y >>= f) text' := by
  simp [bind, StateT.bind, h]

theorem skip_cons (c : Char) (rest : List Char) : skip (c :: rest) = .ok ((), rest) := rfl

theorem peek_eq (text : List Char) : peek text = .ok (text.head?, text) := rfl

theorem peek_cons (c : Char) (rest : List Char) : peek (c :: rest) = .ok (some c, c :: rest) := rfl

theorem pure_eq {α : Type} (a : α) (text : List Char) :
    (pure a : Reader α) text = .ok (a, text) := rfl

/-- Blanks are passed up to what is none. -/
theorem peekAfterBlanks_append {blanks : List Char} (h : blanks.all isBlank) {c : Char}
    (hc : ¬ isBlank c) (rest : List Char) :
    peekAfterBlanks (blanks ++ c :: rest) = .ok (some c, c :: rest) := by
  have hdrop : (blanks ++ c :: rest).dropWhile isBlank = c :: rest := by
    rw [List.dropWhile_append_of_pos (List.all_eq_true.mp h), List.dropWhile_cons_of_neg hc]
  rw [peekAfterBlanks, hdrop]
  rfl

theorem not_isBlank_of_isDigit {c : Char} (h : c.isDigit) : ¬ isBlank c := by
  simp only [isBlank, Bool.or_eq_true, decide_eq_true_eq]
  rintro (((rfl | rfl) | rfl) | rfl) <;> exact absurd h (by decide)

theorem letters_append (word rest : List Char) : letters word (word ++ rest) = .ok ((), rest) := by
  induction word with
  | nil => rfl
  | cons c word ih =>
    rw [letters, List.cons_append, bind_of_ok (peek_cons c _)]
    simp only [if_true]
    rw [bind_of_ok (skip_cons c _), ih]

/-! ## Outcomes -/

/-- What comes out of a reader that gives the one thing with a property and leaves what follows, or
is an error if nothing has the property. -/
inductive Outcome {α : Type} (P : α → Prop) (rest : List Char) : Except Flaw (α × List Char) → Prop
  | ok {a : α} (h : ∀ b, P b ↔ b = a) : Outcome P rest (.ok (a, rest))
  | error {flaw : Flaw} (h : ∀ b, ¬P b) : Outcome P rest (.error flaw)

namespace Outcome

section
variable {α β : Type} {P : α → Prop} {Q : α → β → Prop} {text rest rest' : List Char}

theorem bind {x : Reader α} {f : α → Reader β} (hx : Outcome P rest (x text))
    (hf : ∀ a, P a → Outcome (Q a) rest' (f a rest)) :
    Outcome (fun b => ∃ a, P a ∧ Q a b) rest' ((x >>= f) text) := by
  generalize hresult : x text = result at hx
  cases hx with
  | @ok a h =>
    have hpred : (fun b => ∃ a, P a ∧ Q a b) = Q a := by
      funext b
      simp only [h, exists_eq_left]
    rw [bind_of_ok hresult, hpred]
    exact hf a ((h a).mpr rfl)
  | @error flaw h =>
    rw [bind_of_error hresult]
    exact .error fun b ⟨a, ha, _⟩ => h a ha

theorem pure (a : α) (rest : List Char) :
    Outcome (fun b => b = a) rest ((Pure.pure a : Reader α) rest) :=
  .ok fun _ => .rfl

theorem map {x : Reader α} (hx : Outcome P rest (x text)) (f : α → β) :
    Outcome (fun b => ∃ a, P a ∧ b = f a) rest ((do return f (← x) : Reader β) text) :=
  hx.bind fun a _ => pure (f a) rest

theorem congr {R : α → Prop} {result : Except Flaw (α × List Char)} (h : Outcome P rest result)
    (hiff : ∀ a, P a ↔ R a) : Outcome R rest result :=
  (funext fun a => propext (hiff a) : P = R) ▸ h

end

end Outcome

end Reader

end Lox.Json
