import Lox.Decimal.Layout
import Lox.Text.Quoted
import Lox.Token.Basic

/-!
Tokens as text: the name of the kind, the lexeme in quotes, and the payload.
-/

namespace Lox

/-- A number in a dump keeps a zero after the point if it is whole, and is written with an exponent
below a ten-thousandth and from ten quadrillions on. -/
def Token.decimals : Decimal.Layout :=
  ⟨.up, some (-4), some 15, ".0", ""⟩

/-- A string stands as it is, without quotes. -/
def Literal.dump : Literal → String
  | number x => Token.decimals.text x
  | string s => s

def Token.dump (t : Token) : String :=
  t.kind.name ++ " " ++ Text.quoted t.lexeme ++ " " ++ (t.literal.map Literal.dump).getD "null"

end Lox
