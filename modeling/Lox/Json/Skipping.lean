import Lox.Json.Number

/-!
Passing over a value whose content does not matter. The brackets that are open are kept on a stack,
so values may be nested to any depth.
-/

namespace Lox.Json

/-- A bracket that is open. -/
inductive Bracket
  | list
  | object
deriving DecidableEq, Repr, Inhabited

namespace Bracket

def closing : Bracket → Char
  | list => ']'
  | object => '\x7d'

/-- The flaw of a text that ends inside. -/
def unfinished : Bracket → Cause
  | list => .endInList
  | object => .endInObject

/-- The flaw of an item that neither a comma nor the closing bracket follows. -/
def unseparated : Bracket → Cause
  | list => .expectedListComma
  | object => .expectedObjectComma

end Bracket

namespace Reader

/-- Passes a scalar, or the opening of a bracket, which is then returned. -/
def skipScalar : Reader (Option Bracket) := do
  match ← peekAfterBlanks with
  | none => fail .endInValue 0
  | some 'n' => letters "null".toList; pure none
  | some 't' => letters "true".toList; pure none
  | some 'f' => letters "false".toList; pure none
  | some '-' => skip; skipNumber; pure none
  | some '"' => skip; skipString; pure none
  | some '[' => skip; pure (some .list)
  | some '\x7b' => skip; pure (some .object)
  | some c => if c.isDigit then skipNumber; pure none else fail .expectedValue 1

/-- Passes closing brackets and, after an item, the comma to the next one. What remains open is
returned, and a value of the innermost bracket comes next unless nothing is open any more. -/
def settle (afterItem : Bool) : List Bracket → Reader (List Bracket)
  | [] => pure []
  | bracket :: outer => do
    match ← peekAfterBlanks with
    | none => fail bracket.unfinished 0
    | some c =>
      if c = bracket.closing then skip; settle true outer
      else if afterItem then
        if c = ',' then skip; pure (bracket :: outer) else fail bracket.unseparated 1
      else pure (bracket :: outer)

/-- Passes the colon after a key. -/
def colon : Reader Unit := do
  match ← peekAfterBlanks with
  | none => fail .endInObject 0
  | some ':' => skip
  | some _ => fail .expectedColon 1

/-- Passes a key and the colon after it. -/
def skipKey : Reader Unit := do
  match ← peekAfterBlanks with
  | none => fail .endInObject 0
  | some '"' => skip; skipString; colon
  | some _ => fail .expectedKey 1

/-- Passes a value inside the given brackets and whatever follows until all of them are closed.
Each step passes a character, so there are no more steps than characters. -/
def skipNested : Nat → List Bracket → Reader Unit
  | 0, _ => fail .endInValue 0
  | steps + 1, brackets => do
    let open? ← skipScalar
    let brackets ← match open? with
      | some bracket => settle false (bracket :: brackets)
      | none => settle true brackets
    match brackets with
    | [] => pure ()
    | bracket :: _ =>
      if bracket = .object then skipKey
      skipNested steps brackets

/-- Passes one value. -/
def skipValue : Reader Unit := do
  skipNested ((← get).length + 1) []

end Reader

end Lox.Json
