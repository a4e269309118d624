import Lox.Json.Writing
import Lox.Run.Basic

/-!
The settings of the command: the limit on expressions, what is printed besides the value, the
prompt, and whether the command tells what it is doing.
-/

namespace Lox

structure Settings where
  maxDepth : Nat
  printTokens : Bool
  printAst : Bool
  prompt : String
  debug : Bool
deriving DecidableEq, Repr, Inhabited

namespace Settings

def standard : Settings :=
  ⟨defaultMaxDepth, false, false, "> ", false⟩

def json (s : Settings) : Json :=
  .object [("max_depth", .integer s.maxDepth), ("print_tokens", .boolean s.printTokens),
    ("print_ast", .boolean s.printAst), ("prompt", .text s.prompt), ("debug", .boolean s.debug)]

/-- The settings as the text of a file. -/
def text (s : Settings) : String :=
  s.json.pretty

/-- A depth is a number of 64 bits in ASCII digits, which a plus sign may precede. -/
def depth? (text : List Char) : Option Nat :=
  let digits := if text.head? = some '+' then text.tail else text
  let n := Nat.ofDigitChars 10 digits 0
  if !digits.isEmpty && digits.all Char.isDigit && n < UInt64.size then some n else none

end Settings

end Lox
