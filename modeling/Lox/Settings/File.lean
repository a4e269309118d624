import Lox.Json.Skipping
import Lox.Settings.Basic

/-!
Settings in a file: a JSON object whose members are found by name, in any order, or a list of their
values in the order of the fields. What is missing has its standard value. A name may occur only
once; members with other names are passed over.
-/

namespace Lox.Settings

inductive Field
  | maxDepth
  | printTokens
  | printAst
  | prompt
  | debug
deriving DecidableEq, Repr, Inhabited

namespace Field

/-- In the order in which a list has them. -/
def all : List Field :=
  [maxDepth, printTokens, printAst, prompt, debug]

def name : Field → String
  | maxDepth => "max_depth"
  | printTokens => "print_tokens"
  | printAst => "print_ast"
  | prompt => "prompt"
  | debug => "debug"

def ofName? (s : String) : Option Field :=
  all.find? fun f => f.name == s

end Field

/-- The settings that a file has given so far. -/
structure Draft where
  maxDepth : Option Nat
  printTokens : Option Bool
  printAst : Option Bool
  prompt : Option String
  debug : Option Bool
deriving DecidableEq, Repr, Inhabited

namespace Draft

def empty : Draft :=
  ⟨none, none, none, none, none⟩

def has (d : Draft) : Field → Bool
  | .maxDepth => d.maxDepth.isSome
  | .printTokens => d.printTokens.isSome
  | .printAst => d.printAst.isSome
  | .prompt => d.prompt.isSome
  | .debug => d.debug.isSome

/-- Fills the gaps with the standard values. -/
def complete (d : Draft) : Settings :=
  ⟨d.maxDepth.getD standard.maxDepth, d.printTokens.getD standard.printTokens,
    d.printAst.getD standard.printAst, d.prompt.getD standard.prompt,
    d.debug.getD standard.debug⟩

end Draft

/-! ## Values of a wanted type -/

open Json Json.Reader

def foundNumber : Number → Found
  | .natural n => .integer n
  | .negative n => .integer (-n)
  | .float x => .float x

/-- Reads a scalar that is not of the wanted type; a list or an object is seen by its bracket. -/
def readFound : Reader Found := do
  match ← peek with
  | some 'n' => letters "null".toList; pure .null
  | some 't' => letters "true".toList; pure (.boolean true)
  | some 'f' => letters "false".toList; pure (.boolean false)
  | some '-' => do skip; return foundNumber (← number false)
  | some '"' => do skip; return .text (← string)
  | some '[' => pure .list
  | some '\x7b' => pure .object
  | c? => if c?.any Char.isDigit then return foundNumber (← number true) else fail .expectedValue 1

def failType {α : Type} (wanted : String) : Reader α := do
  fail (.wrongType (← readFound) wanted) 0

/-- The number of a depth: whole, not below zero, within 64 bits. -/
def depthOfNumber : Number → Reader Nat
  | .natural n => pure n
  | .negative n => fail (.wrongValue (.integer (-n)) "usize") 0
  | .float x => fail (.wrongType (.float x) "usize") 0

def readDepth : Reader Nat := do
  match ← peekAfterBlanks with
  | none => fail .endInValue 0
  | some '-' => do skip; depthOfNumber (← number false)
  | some c => if c.isDigit then depthOfNumber (← number true) else failType "usize"

def readFlag : Reader Bool := do
  match ← peekAfterBlanks with
  | none => fail .endInValue 0
  | some 't' => letters "true".toList; pure true
  | some 'f' => letters "false".toList; pure false
  | some _ => failType "a boolean"

def readText : Reader String := do
  match ← peekAfterBlanks with
  | none => fail .endInValue 0
  | some '"' => skip; string
  | some _ => failType "a string"

def readField (d : Draft) : Field → Reader Draft
  | .maxDepth => do return { d with maxDepth := some (← readDepth) }
  | .printTokens => do return { d with printTokens := some (← readFlag) }
  | .printAst => do return { d with printAst := some (← readFlag) }
  | .prompt => do return { d with prompt := some (← readText) }
  | .debug => do return { d with debug := some (← readFlag) }

/-! ## Lists -/

/-- Whether another item follows, and the comma before it. -/
def nextItem (isFirst : Bool) : Reader Bool := do
  match ← peekAfterBlanks with
  | none => fail .endInList 0
  | some ']' => pure false
  | some c =>
    if isFirst then pure true
    else if c = ',' then
      skip
      match ← peekAfterBlanks with
      | none => fail .endInValue 0
      | some ']' => fail .trailingComma 1
      | some _ => pure true
    else fail .expectedListComma 1

/-- The end of a list that may have no more items. -/
def closeList : Reader Unit := do
  match ← peekAfterBlanks with
  | none => fail .endInList 0
  | some ']' => skip
  | some ',' =>
    skip
    match ← peekAfterBlanks with
    | some ']' => fail .trailingComma 1
    | _ => fail .trailingCharacters 1
  | some _ => fail .trailingCharacters 1

/-- The items for the given fields. -/
def readItems (isFirst : Bool) (d : Draft) : List Field → Reader Draft
  | [] => do closeList; return d
  | field :: fields => do
    if ← nextItem isFirst then readItems false (← readField d field) fields
    else do closeList; return d

/-! ## Objects -/

/-- The next key, if another member follows. -/
def nextKey (isFirst : Bool) : Reader (Option String) := do
  match ← peekAfterBlanks with
  | none => fail .endInObject 0
  | some '\x7d' => skip; pure none
  | some c =>
    if isFirst then
      if c = '"' then do skip; return some (← string) else fail .expectedKey 1
    else if c = ',' then
      skip
      match ← peekAfterBlanks with
      | none => fail .endInValue 0
      | some '"' => do skip; return some (← string)
      | some '\x7d' => fail .trailingComma 1
      | some _ => fail .expectedKey 1
    else fail .expectedObjectComma 1

/-- A second member of one name. The place of the flaw is after the blanks that follow the name, and
after the closing bracket if that follows at once. -/
def failDuplicate {α : Type} (field : Field) : Reader α := do
  if (← peekAfterBlanks) = some '\x7d' then skip
  fail (.duplicateMember field.name) 0

/-- One member after its key. -/
def readMember (d : Draft) (key : String) : Reader Draft := do
  match Field.ofName? key with
  | none => do colon; skipValue; return d
  | some field =>
    if d.has field then failDuplicate field
    else do colon; readField d field

/-- The members up to the closing bracket. Each one passes a character, so there are no more of them
than characters. -/
def readMembers : Nat → Bool → Draft → Reader Draft
  | 0, _, _ => fail .endInObject 0
  | steps + 1, isFirst, d => do
    match ← nextKey isFirst with
    | none => pure d
    | some key => readMembers steps false (← readMember d key)

/-! ## Files -/

def readDraft : Reader Draft := do
  match ← peekAfterBlanks with
  | none => fail .endInValue 0
  | some '[' => do skip; readItems true .empty Field.all
  | some '\x7b' => do skip; readMembers ((← get).length + 1) true .empty
  | some _ => failType "struct Config"

/-- Nothing but blanks may follow. -/
def finish : Reader Unit := do
  if (← peekAfterBlanks).isSome then fail .trailingCharacters 1

/-- The settings that a text gives, or what is wrong with it. -/
def ofText (text : String) : Except Flaw Settings := do
  let (d, _) ← (do let d ← readDraft; finish; return d : Reader Draft) text.toList
  return d.complete

end Lox.Settings
