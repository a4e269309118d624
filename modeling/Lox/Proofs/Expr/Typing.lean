import Lox.Expr.Evaluation
import Lox.Proofs.Expr.Payload

/-!
Types of expressions. One pass over a tree, from the left to the right and from the leaves up, finds
the type of its value or the first operator whose operands have not the types it needs
(`Expr.typing`). The pass looks at the kinds of tokens alone, and the evaluation agrees with it
(`agrees_typing`), so nothing but types decides whether there is a value and where it fails.
-/

namespace Lox

/-- The types of values. -/
inductive ValueType
  | number
  | string
  | boolean
  | nil
deriving DecidableEq, Repr, Inhabited

def Value.type : Value → ValueType
  | number _ => .number
  | string _ => .string
  | boolean _ => .boolean
  | nil => .nil

/-! ## The pass -/

/-- What the pass comes to. -/
inductive Typing
  | typed (type : ValueType)
  /-- The operands of the operator have not the types it needs. -/
  | stopped (op : Token) (message : String)
  /-- A token that is no leaf or no operator of the grammar. -/
  | foreign
deriving BEq, Inhabited

namespace Typing

/-- Goes on with the type that has been found. -/
def andThen : Typing → (ValueType → Typing) → Typing
  | typed type, f => f type
  | stopped op message, _ => stopped op message
  | foreign, _ => foreign

def ofLeaf (t : Token) : Typing :=
  match t.kind with
  | .number => typed .number
  | .string => typed .string
  | .keyword .trueWord | .keyword .falseWord => typed .boolean
  | .keyword .nilWord => typed .nil
  | _ => foreign

def ofUnary (op : Token) (operand : ValueType) : Typing :=
  match op.kind with
  | .bang => typed .boolean
  | .minus => if operand = .number then typed .number else stopped op "Operand must be a number."
  | _ => foreign

/-- An operation on two numbers. -/
def ofNumbers (op : Token) (left right result : ValueType) : Typing :=
  if left = .number ∧ right = .number then typed result
  else stopped op "Operands must be numbers."

def ofBinary (op : Token) (left right : ValueType) : Typing :=
  match op.kind with
  | .plus =>
    if left = right ∧ (left = .number ∨ left = .string) then typed left
    else stopped op "Operands must be 2 numbers or strings."
  | .minus | .star | .slash => ofNumbers op left right .number
  | .less | .lessEqual | .greater | .greaterEqual => ofNumbers op left right .boolean
  | .equalEqual | .bangEqual => typed .boolean
  | _ => foreign

end Typing

def Expr.typing : Expr → Typing
  | literal t => .ofLeaf t
  | unary op operand => operand.typing.andThen (.ofUnary op)
  | binary left op right =>
    left.typing.andThen fun l => right.typing.andThen fun r => .ofBinary op l r
  | grouping inner => inner.typing

/-! ## The evaluation agrees with the pass -/

namespace Evaluation

/-- The evaluation has failed at this operator, in these words. -/
def FailsAt (r : Result) (op : Token) (message : String) : Prop :=
  ∃ error, r = .error (.error error) ∧ error.line = op.line ∧ error.lexeme = op.lexeme ∧
    error.message = message

/-- A type that has been found is that of the value, and where the pass has stopped the evaluation
has failed. -/
def Agrees : Typing → Result → Prop
  | .typed type, r => ∃ v, r = .ok v ∧ v.type = type
  | .stopped op message, r => FailsAt r op message
  | .foreign, _ => False

theorem fail_failsAt (op : Token) (cause : RuntimeError.Cause) :
    FailsAt (fail op cause) op (RuntimeError.atToken op cause).message :=
  ⟨_, rfl, rfl, rfl, rfl⟩

theorem Agrees.bind {typing : Typing} {r : Result} {f : ValueType → Typing} {g : Value → Result}
    (h : Agrees typing r) (hf : ∀ v, Agrees (f v.type) (g v)) :
    Agrees (typing.andThen f) (r >>= g) := by
  cases typing with
  | typed type =>
    obtain ⟨v, rfl, rfl⟩ := h
    exact hf v
  | stopped op message =>
    obtain ⟨error, rfl, herror⟩ := h
    exact ⟨error, rfl, herror⟩
  | foreign => exact h.elim

variable {op : Token}

theorem agrees_onNumbers (left right : Value) {f : Float → Float → Value} {result : ValueType}
    (hf : ∀ a b, (f a b).type = result) :
    Agrees (.ofNumbers op left.type right.type result) (onNumbers op left right f) := by
  cases left with
  | number a =>
    cases right with
    | number b => exact ⟨f a b, rfl, hf a b⟩
    | string s | boolean b | nil => exact fail_failsAt op .operandsNotNumbers
  | string s | boolean b | nil => exact fail_failsAt op .operandsNotNumbers

theorem agrees_applyUnary (h : op.kind = .bang ∨ op.kind = .minus) (operand : Value) :
    Agrees (.ofUnary op operand.type) (applyUnary op operand) := by
  rcases h with h | h
  · simp only [Typing.ofUnary, applyUnary, h]
    exact ⟨_, rfl, rfl⟩
  · simp only [Typing.ofUnary, applyUnary, h]
    cases operand with
    | number x => exact ⟨_, rfl, rfl⟩
    | string s | boolean b | nil => exact fail_failsAt op .operandNotNumber

theorem agrees_applyPlus (h : op.kind = .plus) (left right : Value) :
    Agrees (.ofBinary op left.type right.type) (applyBinary op left right) := by
  simp only [Typing.ofBinary, applyBinary, h]
  cases left with
  | number a =>
    cases right with
    | number b => exact ⟨_, rfl, rfl⟩
    | string s | boolean b | nil => exact fail_failsAt op .operandsNotAlike
  | string s =>
    cases right with
    | string t => exact ⟨_, rfl, rfl⟩
    | number b | boolean b | nil => exact fail_failsAt op .operandsNotAlike
  | boolean b | nil => cases right <;> exact fail_failsAt op .operandsNotAlike

theorem agrees_applyBinary {n : Nat} (h : op.kind.tightness? = some n) (left right : Value) :
    Agrees (.ofBinary op left.type right.type) (applyBinary op left right) := by
  cases hk : op.kind with
  | plus => exact agrees_applyPlus hk left right
  | minus | star | slash | less | lessEqual | greater | greaterEqual =>
    simp only [Typing.ofBinary, applyBinary, hk]
    exact agrees_onNumbers left right fun _ _ => rfl
  | equalEqual | bangEqual =>
    simp only [Typing.ofBinary, applyBinary, hk]
    exact ⟨_, rfl, rfl⟩
  | _ => simp [hk, TokenKind.tightness?] at h

/-- The induction is on the tree; what a leaf stands for is all that the payloads are asked for. -/
theorem agrees_typing {e : Expr} (hs : e.IsStratified) (hp : e.PayloadsFit) :
    Agrees e.typing e.evaluate := by
  induction e with
  | literal t => cases Expr.Leaf.of_payloadFits hs hp <;> exact ⟨_, rfl, rfl⟩
  | unary op operand ih =>
    obtain ⟨hop, -, hs⟩ := hs
    exact (ih hs hp).bind (agrees_applyUnary hop)
  | binary left op right ihl ihr =>
    obtain ⟨n, hop, -, -, hsl, hsr⟩ := hs
    exact (ihl hsl hp.1).bind fun l => (ihr hsr hp.2).bind fun r => agrees_applyBinary hop l r
  | grouping inner ih => exact ih hs hp

theorem Agrees.ne_fault {typing : Typing} {r : Result} (h : Agrees typing r) (f : Fault) :
    r ≠ .error (.fault f) := by
  cases typing with
  | typed type =>
    obtain ⟨v, rfl, -⟩ := h
    simp
  | stopped op message =>
    obtain ⟨error, rfl, -⟩ := h
    simp
  | foreign => exact h.elim

end Evaluation

/-! ## Payloads do not matter -/

namespace Expr

/-- The same tree but for what its leaves carry. -/
inductive SameButPayloads : Expr → Expr → Prop
  | literal {t t' : Token} (h : t.kind = t'.kind) : SameButPayloads (.literal t) (.literal t')
  | unary (op : Token) {e e' : Expr} (h : SameButPayloads e e') :
    SameButPayloads (.unary op e) (.unary op e')
  | binary (op : Token) {l l' r r' : Expr} (hl : SameButPayloads l l')
      (hr : SameButPayloads r r') : SameButPayloads (.binary l op r) (.binary l' op r')
  | grouping {e e' : Expr} (h : SameButPayloads e e') :
    SameButPayloads (.grouping e) (.grouping e')

theorem SameButPayloads.typing_eq {e e' : Expr} (h : SameButPayloads e e') :
    e.typing = e'.typing := by
  induction h with
  | literal h => simp only [typing, Typing.ofLeaf, h]
  | unary op h ih => rw [typing, typing, ih]
  | binary op hl hr ihl ihr => rw [typing, typing, ihl, ihr]
  | grouping h ih => exact ih

end Expr

end Lox
