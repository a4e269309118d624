/-!
The number that a digit text denotes: the nearest floating-point number to its exact value.
-/

namespace Lox.Decimal

/-- Digits with at most one point among them, and at least one digit. -/
def isNumeral (text : List Char) : Bool :=
  let whole := text.takeWhile Char.isDigit
  match text.dropWhile Char.isDigit with
  | [] => !whole.isEmpty
  | '.' :: fraction => fraction.all Char.isDigit && !(whole.isEmpty && fraction.isEmpty)
  | _ => false

/-- Reads digits with at most one point among them. -/
def ofText? (text : List Char) : Option Float :=
  if isNumeral text then
    let whole := text.takeWhile Char.isDigit
    let fraction := (text.dropWhile Char.isDigit).drop 1
    some (Float.ofScientific (Nat.ofDigitChars 10 (whole ++ fraction) 0) true fraction.length)
  else none

/-- What stands for a text that is no numeral. -/
def notANumber : Float :=
  Float.ofBits 0x7FF8000000000000

end Lox.Decimal
