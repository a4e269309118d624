import Lox.Json.Writing
import Lox.Text.Quoted

/-!
What can be wrong with a JSON text that is read for known members, and where. A flaw remembers the
text that was unread when it was found and how many bytes of it had been looked at; `locate` turns
this into a line and a column, which counts bytes.
-/

namespace Lox.Json

/-- A value that was found where another type was wanted. -/
inductive Found
  | null
  | boolean (b : Bool)
  | integer (n : Int)
  | float (x : Float)
  | text (s : String)
  | list
  | object
deriving Inhabited

def Found.describe : Found → String
  | null => "null"
  | boolean b => "boolean " ++ (if b then "`true`" else "`false`")
  | integer n => "integer `" ++ toString n ++ "`"
  | float x => "floating point `" ++ (decimals.finite? x).getD "null" ++ "`"
  | text s => "string " ++ Text.quoted s
  | list => "sequence"
  | object => "map"

inductive Cause
  | endInValue
  | endInList
  | endInObject
  | endInString
  | expectedValue
  | expectedWord
  | expectedKey
  | expectedColon
  | expectedListComma
  | expectedObjectComma
  | trailingComma
  | trailingCharacters
  | invalidNumber
  | numberOutOfRange
  | controlCharacter
  | invalidEscape
  | brokenPair
  | loneSurrogate
  /-- A value of another type than the wanted one. -/
  | wrongType (found : Found) (wanted : String)
  /-- A value of the wanted type that is out of its bounds. -/
  | wrongValue (found : Found) (wanted : String)
  | duplicateMember (name : String)
deriving Inhabited

def Cause.describe : Cause → String
  | endInValue => "EOF while parsing a value"
  | endInList => "EOF while parsing a list"
  | endInObject => "EOF while parsing an object"
  | endInString => "EOF while parsing a string"
  | expectedValue => "expected value"
  | expectedWord => "expected ident"
  | expectedKey => "key must be a string"
  | expectedColon => "expected `:`"
  | expectedListComma => "expected `,` or `]`"
  | expectedObjectComma => "expected `,` or `\x7d`"
  | trailingComma => "trailing comma"
  | trailingCharacters => "trailing characters"
  | invalidNumber => "invalid number"
  | numberOutOfRange => "number out of range"
  | controlCharacter => "control character (\\u0000-\\u001F) found while parsing a string"
  | invalidEscape => "invalid escape"
  | brokenPair => "unexpected end of hex escape"
  | loneSurrogate => "lone leading surrogate in hex escape"
  | wrongType found wanted => "invalid type: " ++ found.describe ++ ", expected " ++ wanted
  | wrongValue found wanted => "invalid value: " ++ found.describe ++ ", expected " ++ wanted
  | duplicateMember name => "duplicate field `" ++ name ++ "`"

/-- What is wrong, the text that was unread then, and how many bytes of it were looked at. -/
structure Flaw where
  cause : Cause
  rest : List Char
  ahead : Nat
deriving Inhabited

/-! ## Places -/

/-- Lines count from one, columns are the bytes of the line so far. -/
structure Position where
  line : Nat
  column : Nat
deriving DecidableEq, Repr, Inhabited

def byteCount : List Char → Nat
  | [] => 0
  | c :: cs => c.utf8Size + byteCount cs

/-- The position after so many bytes of the text, which may end inside a character. -/
def Position.advance (p : Position) : Nat → List Char → Position
  | _, [] => p
  | bytes, c :: rest =>
    if bytes < c.utf8Size then { p with column := p.column + bytes }
    else if c = '\n' then Position.advance ⟨p.line + 1, 0⟩ (bytes - 1) rest
    else Position.advance { p with column := p.column + c.utf8Size } (bytes - c.utf8Size) rest

/-- The place of a flaw in the text in which it was found. -/
def Flaw.locate (f : Flaw) (source : List Char) : Position :=
  Position.advance ⟨1, 0⟩ (byteCount source - byteCount f.rest + f.ahead) source

def Flaw.describe (f : Flaw) (source : String) : String :=
  let p := f.locate source.toList
  f.cause.describe ++ " at line " ++ toString p.line ++ " column " ++ toString p.column

end Lox.Json
