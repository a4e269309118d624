import Lox.Diagnostics.Error
import Lox.Expr.Basic
import Lox.Fault
import Lox.Value

/-!
The value of an expression: first the left operand, then the right one, then the operator. The first
operator whose operands do not fit ends the evaluation.
-/

namespace Lox

/-- The value of a leaf, if its token stands for one. -/
def Token.leafValue? (t : Token) : Option Value :=
  match t.kind, t.literal with
  | .number, some (.number x) => some (.number x)
  | .string, some (.string s) => some (.string s)
  | .keyword .trueWord, _ => some (.boolean true)
  | .keyword .falseWord, _ => some (.boolean false)
  | .keyword .nilWord, _ => some .nil
  | _, _ => none

namespace Evaluation

abbrev Result := Except (Halt RuntimeError) Value

def fail (op : Token) (cause : RuntimeError.Cause) : Result :=
  .error (.error (.atToken op cause))

def applyUnary (op : Token) (operand : Value) : Result :=
  match op.kind with
  | .minus => match operand with
    | .number x => .ok (.number (-x))
    | _ => fail op .operandNotNumber
  | .bang => .ok (.boolean !operand.isTruthy)
  | kind => .error (.fault (.unaryOperator kind))

/-- An operation on two numbers. -/
def onNumbers (op : Token) (left right : Value) (f : Float → Float → Value) : Result :=
  match left, right with
  | .number a, .number b => .ok (f a b)
  | _, _ => fail op .operandsNotNumbers

def applyBinary (op : Token) (left right : Value) : Result :=
  match op.kind with
  | .plus => match left, right with
    | .number a, .number b => .ok (.number (a + b))
    | .string a, .string b => .ok (.string (a ++ b))
    | _, _ => fail op .operandsNotAlike
  | .minus => onNumbers op left right fun a b => .number (a - b)
  | .star => onNumbers op left right fun a b => .number (a * b)
  | .slash => onNumbers op left right fun a b => .number (a / b)
  | .greater => onNumbers op left right fun a b => .boolean (b < a)
  | .greaterEqual => onNumbers op left right fun a b => .boolean (b ≤ a)
  | .less => onNumbers op left right fun a b => .boolean (a < b)
  | .lessEqual => onNumbers op left right fun a b => .boolean (a ≤ b)
  | .equalEqual => .ok (.boolean (left == right))
  | .bangEqual => .ok (.boolean (left != right))
  | kind => .error (.fault (.binaryOperator kind))

end Evaluation

def Expr.evaluate : Expr → Evaluation.Result
  | literal t => match t.leafValue? with
    | some v => .ok v
    | none => .error (.fault (.leafPayload t.kind t.literal))
  | unary op operand => do
    Evaluation.applyUnary op (← operand.evaluate)
  | binary left op right => do
    let left ← left.evaluate
    let right ← right.evaluate
    Evaluation.applyBinary op left right
  | grouping inner => inner.evaluate

end Lox
