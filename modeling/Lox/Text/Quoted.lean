import Lox.Text.Combining
import Lox.Text.Invisible

/-!
Quoted text: a text between double quotes in which every character that could not be told from the
printed line is written by an escape. A quoted text is therefore always one line.
-/

namespace Lox.Text

/-- Whether a character stands for itself inside quotes, the quote and the backslash apart. -/
def isPrintable (c : Char) : Bool :=
  if c.toNat < 0x7F then 0x20 ≤ c.toNat else !isInvisible c && !isCombining c

/-- The code point in hexadecimal between braces. -/
def codePoint (c : Char) : List Char :=
  '\\' :: 'u' :: '\x7b' :: Nat.toDigits 16 c.toNat ++ ['\x7d']

def escape (c : Char) : List Char :=
  match c with
  | '"' => ['\\', '"']
  | '\\' => ['\\', '\\']
  | '\n' => ['\\', 'n']
  | '\r' => ['\\', 'r']
  | '\t' => ['\\', 't']
  | '\x00' => ['\\', '0']
  | _ => if isPrintable c then [c] else codePoint c

def quoted (s : String) : String :=
  String.ofList ('"' :: s.toList.flatMap escape ++ ['"'])

end Lox.Text
