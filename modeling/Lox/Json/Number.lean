import Lox.Json.Reader

/-!
Reading numbers. A number without fraction and exponent is whole if it fits a machine word, and
every other number is a floating-point number.

The digits of a floating-point number are gathered into a significand of at most 64 bits. Digits of
the whole part that no longer fit count into the exponent, digits of the fraction that no longer fit
are dropped. The significand is rounded once, then multiplied or divided by a rounded power of ten.
-/

namespace Lox.Json

inductive Number
  | natural (n : Nat)
  /-- A whole number below zero, by its distance from zero. -/
  | negative (n : Nat)
  | float (x : Float)
deriving Inhabited

namespace Number

/-- Extends a number by digits as long as it fits into 64 bits; the digits left over come second. -/
def gather (n : Nat) : List Char → Nat × List Char
  | [] => (n, [])
  | d :: ds =>
    let longer := 10 * n + (d.toNat - '0'.toNat)
    if longer < UInt64.size then gather longer ds else (n, d :: ds)

/-- The greatest power of ten that is a floating-point number. -/
def maxPower : Nat := 308

def power (k : Nat) : Float :=
  Float.ofScientific 1 false k

/-- Divides by `10 ^ k`, in steps where the power is too great. -/
def scaleDown (x : Float) (k : Nat) : Float :=
  if maxPower < k then
    if x == 0 then x else scaleDown (x / power maxPower) (k - maxPower)
  else x / power k
termination_by k
decreasing_by simp only [maxPower] at *; omega

/-- `significand * 10 ^ exponent`, if that is finite. -/
def scale? (significand : Nat) (exponent : Int) : Option Float :=
  let x := significand.toUInt64.toFloat
  if exponent < 0 then some (scaleDown x (-exponent).toNat)
  else if maxPower < exponent.toNat then if x == 0 then some x else none
  else
    let product := x * power exponent.toNat
    if product.isInf then none else some product

/-- Exponents are counted up to this bound. -/
def maxExponent : Nat := 0x7FFFFFFF

end Number

namespace Reader

def digits : Reader (List Char) := fun text =>
  .ok (text.span Char.isDigit)

/-- A finite number, or else a flaw at the current place. -/
def finite (isPositive : Bool) (x? : Option Float) : Reader Number :=
  match x? with
  | some x => pure (.float (if isPositive then x else -x))
  | none => fail .numberOutOfRange 0

/-- The digits of an exponent, the first of which has been checked: their value, or none from the
digit on that leads beyond the bound. -/
def exponentDigits : Nat → Reader (Option Nat) := fun n text => go n text
where
  go (n : Nat) : List Char → Except Flaw (Option Nat × List Char)
    | [] => .ok (some n, [])
    | d :: ds =>
      if d.isDigit then
        let longer := 10 * n + (d.toNat - '0'.toNat)
        if Number.maxExponent < longer then .ok (none, ds) else go longer ds
      else .ok (some n, d :: ds)

/-- The sign of an exponent; without one it is positive. -/
def exponentSign : Reader Bool := do
  match ← peek with
  | some '+' => skip; pure true
  | some '-' => skip; pure false
  | _ => pure true

/-- The rest of a number from the letter of its exponent on. -/
def afterExponentMark (isPositive : Bool) (significand : Nat) (exponent : Int) : Reader Number := do
  skip
  let upward ← exponentSign
  match ← peek with
  | none => fail .endInValue 0
  | some c =>
    if c.isDigit then
      match ← exponentDigits 0 with
      | some n =>
        finite isPositive
          (Number.scale? significand (if upward then exponent + n else exponent - n))
      | none =>
        if significand ≠ 0 ∧ upward then fail .numberOutOfRange 0
        else
          let _ ← digits
          finite isPositive (some 0)
    else fail .invalidNumber 1

def isExponentMark (c? : Option Char) : Bool :=
  c? = some 'e' || c? = some 'E'

/-- The rest of a number from its point on. -/
def afterPoint (isPositive : Bool) (significand : Nat) (exponent : Int) : Reader Number := do
  skip
  let fraction ← digits
  if fraction.isEmpty then
    match ← peek with
    | none => fail .endInValue 0
    | some _ => fail .invalidNumber 1
  else
    let (significand, dropped) := Number.gather significand fraction
    let exponent := exponent - (fraction.length - dropped.length : Nat)
    if isExponentMark (← peek) then afterExponentMark isPositive significand exponent
    else finite isPositive (Number.scale? significand exponent)

/-- A whole number below zero, as far as words of 64 bits reach. Zero with a sign and what is below
that are floating-point numbers. -/
def negated (n : Nat) : Number :=
  if 0 < n ∧ n ≤ UInt64.size / 2 then .negative n else .float (-(n.toUInt64.toFloat))

/-- A number, after its sign. -/
def number (isPositive : Bool) : Reader Number := do
  match ← peek with
  | none => fail .endInValue 0
  | some c =>
    if c.isDigit then
      if c = '0' then skip
      let whole ← if c = '0' then pure ['0'] else digits
      let next ← peek
      if c = '0' ∧ next.any Char.isDigit then fail .invalidNumber 1
      let (significand, excess) := Number.gather 0 whole
      let exponent : Int := excess.length
      if next = some '.' then afterPoint isPositive significand exponent
      else if isExponentMark next then afterExponentMark isPositive significand exponent
      else if excess.isEmpty then
        pure (if isPositive then .natural significand else negated significand)
      else finite isPositive (Number.scale? significand exponent)
    else fail .invalidNumber 1

/-! ## Numbers that are passed over -/

/-- Passes an exponent from its letter on. -/
def skipExponent : Reader Unit := do
  skip
  let _ ← exponentSign
  match ← peek with
  | none => fail .invalidNumber 0
  | some c => if c.isDigit then discard digits else fail .invalidNumber 1

/-- Passes a number after its sign; only its form is checked. -/
def skipNumber : Reader Unit := do
  match ← peek with
  | none => fail .invalidNumber 0
  | some c =>
    if c.isDigit then
      if c = '0' then skip else discard digits
      if c = '0' ∧ (← peek).any Char.isDigit then fail .invalidNumber 1
      if (← peek) = some '.' then
        skip
        if (← digits).isEmpty then fail .invalidNumber 1
      if isExponentMark (← peek) then skipExponent
    else fail .invalidNumber 1

end Reader

end Lox.Json
