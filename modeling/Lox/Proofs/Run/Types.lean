import Mathlib
import Lox.Proofs.Run.Outcome

/-!
Runtime errors of a source. Whether the tree of a source has a value, of which type, and at which
operator its evaluation fails otherwise, is known from the types of its leaves
(`evaluate_decided_by_types`).
-/

namespace Lox

open Evaluation (Agrees FailsAt)

/-- The evaluation of what has been read agrees with the pass over its types. Trees that differ in
nothing but their payloads have values of one type, or fail at the same operator. -/
theorem evaluate_decided_by_types {source : String} {limit : Nat} {d parsed : Diagnostics}
    {e : Expr} (h : d.parse (scan source).tokens limit = .ok (some e, parsed)) :
    Agrees e.typing e.evaluate ∧
    ∀ {source' : String} {limit' : Nat} {d' parsed' : Diagnostics} {e' : Expr},
      d'.parse (scan source').tokens limit' = .ok (some e', parsed') → e.SameButPayloads e' →
      (∃ v v', e.evaluate = .ok v ∧ e'.evaluate = .ok v' ∧ v.type = v'.type) ∨
        ∃ op message, FailsAt e.evaluate op message ∧ FailsAt e'.evaluate op message := by
  have he := Diagnostics.isTreeOf_of_parse h
  have hagrees := Evaluation.agrees_typing he.stratified he.payloadsFit
  refine ⟨hagrees, fun {_ _ _ _ e'} h' hsame => ?_⟩
  have he' := Diagnostics.isTreeOf_of_parse h'
  have hagrees' := Evaluation.agrees_typing he'.stratified he'.payloadsFit
  rw [← hsame.typing_eq] at hagrees'
  cases htyping : e.typing with
  | typed type =>
    rw [htyping] at hagrees hagrees'
    obtain ⟨v, hv, htype⟩ := hagrees
    obtain ⟨v', hv', htype'⟩ := hagrees'
    exact .inl ⟨v, v', hv, hv', htype.trans htype'.symm⟩
  | stopped op message =>
    rw [htyping] at hagrees hagrees'
    exact .inr ⟨op, message, hagrees, hagrees'⟩
  | foreign =>
    rw [htyping] at hagrees
    exact hagrees.elim

/-- `"a" - "b"` fails like every difference of two strings, and so does `"a" - "cd"`. -/
theorem evaluate_decided_by_types_difference :
    let a : Token := ⟨1, .string, "\"a\"", some (.string "a")⟩
    let b : Token := ⟨1, .string, "\"b\"", some (.string "b")⟩
    let cd : Token := ⟨1, .string, "\"cd\"", some (.string "cd")⟩
    let minus : Token := ⟨1, .minus, "-", none⟩
    let e : Expr := .binary (.literal a) minus (.literal b)
    let e' : Expr := .binary (.literal a) minus (.literal cd)
    Diagnostics.empty.parse (scan "\"a\" - \"b\"").tokens 2 = .ok (some e, .empty) ∧
      Diagnostics.empty.parse (scan "\"a\" - \"cd\"").tokens 2 = .ok (some e', .empty) ∧
      FailsAt e.evaluate minus "Operands must be numbers." ∧
      ((∃ v v', e.evaluate = .ok v ∧ e'.evaluate = .ok v' ∧ v.type = v'.type) ∨
        ∃ op message, FailsAt e.evaluate op message ∧ FailsAt e'.evaluate op message) := by
  intro a b cd minus e e'
  have h : Diagnostics.empty.parse (scan "\"a\" - \"b\"").tokens 2 = .ok (some e, .empty) := by cbv
  have h' : Diagnostics.empty.parse (scan "\"a\" - \"cd\"").tokens 2 = .ok (some e', .empty) := by
    cbv
  have hsame : e.SameButPayloads e' := .binary minus (.literal rfl) (.literal rfl)
  obtain ⟨hagrees, hpayloads⟩ := evaluate_decided_by_types h
  exact ⟨h, h', hagrees, hpayloads h' hsame⟩

end Lox
