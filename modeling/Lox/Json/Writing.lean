import Lox.Decimal.Layout
import Lox.Json.Basic

/-!
JSON as text: on one line without blanks, or one item a line, indented by two spaces a level.
-/

namespace Lox.Json

/-- A whole number keeps a zero after the point; numbers below a hundred-thousandth and from ten
quadrillions on have an exponent with its sign. -/
def decimals : Decimal.Layout :=
  ⟨.even, some (-5), some 15, ".0", "+"⟩

/-- Two hexadecimal digits. -/
private def hexPair (n : Nat) : List Char :=
  [Nat.digitChar (n / 16), Nat.digitChar (n % 16)]

/-- The quote, the backslash and the controls below the space are escaped, and nothing else. -/
def escape (c : Char) : List Char :=
  match c with
  | '"' => ['\\', '"']
  | '\\' => ['\\', '\\']
  | '\x08' => ['\\', 'b']
  | '\x0c' => ['\\', 'f']
  | '\n' => ['\\', 'n']
  | '\r' => ['\\', 'r']
  | '\t' => ['\\', 't']
  | _ => if c.toNat < 0x20 then '\\' :: 'u' :: '0' :: '0' :: hexPair c.toNat else [c]

def quote (s : String) : List Char :=
  '"' :: s.toList.flatMap escape ++ ['"']

/-- How items are set apart. -/
structure Style where
  /-- What stands before each item of a list or an object that is nested this deep, and, one level
  less deep, before its closing bracket. -/
  newline : Nat → List Char
  afterKey : List Char

def Style.compact : Style :=
  ⟨fun _ => [], [':']⟩

def Style.indented : Style :=
  ⟨fun depth => '\n' :: List.replicate (2 * depth) ' ', [':', ' ']⟩

/-- Items between brackets with commas between; without items there is nothing between the
brackets. -/
def Style.enclose (style : Style) (depth : Nat) (opening closing : Char) :
    List (List Char) → List Char
  | [] => [opening, closing]
  | item :: items =>
    opening :: (style.newline (depth + 1) ++ item ++
      items.flatMap (fun i => ',' :: style.newline (depth + 1) ++ i) ++
      style.newline depth ++ [closing])

mutual

/-- The text of a value that is nested this deep. Numbers that are not finite have none of their own
and are written as null. -/
def write (style : Style) (depth : Nat) : Json → List Char
  | null => "null".toList
  | boolean b => (if b then "true" else "false").toList
  | integer n => Nat.toDigits 10 n
  | float x => ((decimals.finite? x).getD "null").toList
  | text s => quote s
  | list items => style.enclose depth '[' ']' (writeItems style (depth + 1) items)
  | object members => style.enclose depth '\x7b' '\x7d' (writeMembers style (depth + 1) members)

def writeItems (style : Style) (depth : Nat) : List Json → List (List Char)
  | [] => []
  | item :: items => write style depth item :: writeItems style depth items

def writeMembers (style : Style) (depth : Nat) : List (String × Json) → List (List Char)
  | [] => []
  | (key, value) :: members =>
    (quote key ++ style.afterKey ++ write style depth value) :: writeMembers style depth members

end

def compact (j : Json) : String :=
  String.ofList (write .compact 0 j)

def pretty (j : Json) : String :=
  String.ofList (write .indented 0 j)

end Lox.Json
