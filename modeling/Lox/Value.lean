import Lox.Decimal.Layout

/-!
The values of expressions. Equality never converts: values of different types differ. Numbers are
compared as floating-point numbers, so the two zeros are equal and what is not a number differs from
itself.
-/

namespace Lox

inductive Value
  | number (x : Float)
  | string (s : String)
  | boolean (b : Bool)
  | nil
deriving BEq, Inhabited

namespace Value

/-- Numbers are shown by digits alone, and whole numbers without a point. -/
def decimals : Decimal.Layout :=
  ⟨.up, none, none, "", ""⟩

/-- Only `nil` and `false` are not. -/
def isTruthy : Value → Bool
  | nil | boolean false => false
  | _ => true

def number? : Value → Option Float
  | number x => some x
  | _ => none

def string? : Value → Option String
  | string s => some s
  | _ => none

def typeName : Value → String
  | number _ => "number"
  | string _ => "string"
  | boolean _ => "boolean"
  | nil => "nil"

def text : Value → String
  | number x => decimals.text x
  | string s => s
  | boolean b => if b then "true" else "false"
  | nil => "nil"

end Value

end Lox
