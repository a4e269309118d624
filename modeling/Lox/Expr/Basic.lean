import Lox.Token.Basic

/-!
Expression trees. A leaf and an operator keep their token, so that errors can name its line and
lexeme; a grouping keeps no token, its parentheses are implied.
-/

namespace Lox

inductive Expr
  | literal (token : Token)
  | unary (operator : Token) (operand : Expr)
  | binary (left : Expr) (operator : Token) (right : Expr)
  | grouping (inner : Expr)
deriving BEq, Inhabited

namespace Expr

/-- The number of nodes on the longest way down; a leaf has height 1. -/
def height : Expr → Nat
  | literal _ => 1
  | unary _ operand => operand.height + 1
  | binary left _ right => max left.height right.height + 1
  | grouping inner => inner.height + 1

theorem height_pos (e : Expr) : 0 < e.height := by
  cases e <;> simp [height]

end Expr

end Lox
