import Lox.Expr.Basic
import Lox.Fault
import Lox.Value

/-!
The prefix form of a tree: an operator, then its operands, with single spaces between, and a group
in parentheses. The operators appear as they are spelled, the leaves as the values they stand for.
-/

namespace Lox

/-- The text of a leaf, if its token stands for a value. -/
def Token.leafText? (t : Token) : Option String :=
  match t.kind, t.literal with
  | .keyword .trueWord, _ => some "true"
  | .keyword .falseWord, _ => some "false"
  | .keyword .nilWord, _ => some "nil"
  | .number, some (.number x) => some (Value.decimals.text x)
  | .string, some (.string s) => some s
  | _, _ => none

/-- The prefix form; a leaf that stands for no value is a fault. -/
def Expr.prefixForm : Expr → Except Fault String
  | literal t => match t.leafText? with
    | some text => .ok text
    | none => .error (.leaf t.kind)
  | unary op operand => do
    return op.lexeme ++ " " ++ (← operand.prefixForm)
  | binary left op right => do
    let left ← left.prefixForm
    let right ← right.prefixForm
    return op.lexeme ++ " " ++ left ++ " " ++ right
  | grouping inner => do
    return "(" ++ (← inner.prefixForm) ++ ")"

end Lox
