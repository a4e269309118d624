import Lox.Token.Basic

/-!
The roles that kinds of token play in an expression. From loosest to tightest: equality, comparison,
sums, products, prefix operators, and what stands alone. Binary operators group to the left.

    expression = equality
    equality   = comparison (("==" | "!=") comparison)*
    comparison = sum (("<" | "<=" | ">" | ">=") sum)*
    sum        = product (("+" | "-") product)*
    product    = unary (("*" | "/") unary)*
    unary      = ("!" | "-") unary | primary
    primary    = NUMBER | STRING | "true" | "false" | "nil" | "(" expression ")"
-/

namespace Lox

/-- The levels at which binary operators bind. -/
inductive Level
  | equality
  | comparison
  | sum
  | product
deriving DecidableEq, Repr, Inhabited

/-- From loosest to tightest. -/
def Level.all : List Level :=
  [.equality, .comparison, .sum, .product]

namespace TokenKind

/-- The level of a binary operator. -/
def level? : TokenKind → Option Level
  | equalEqual | bangEqual => some .equality
  | less | lessEqual | greater | greaterEqual => some .comparison
  | plus | minus => some .sum
  | star | slash => some .product
  | _ => none

/-- The operators that may stand before an operand. -/
def isUnary : TokenKind → Bool
  | bang | minus => true
  | _ => false

/-- The kinds that are an expression by themselves. -/
def isLeaf : TokenKind → Bool
  | number | string | keyword .trueWord | keyword .falseWord | keyword .nilWord => true
  | _ => false

end TokenKind

end Lox
