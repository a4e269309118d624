import Lox.Decimal.Shortest

/-!
Decimal notation. A `Layout` records the decisions that one format takes: how far positional
notation reaches, how an exponent is written, what marks a whole number, which way ties go.
-/

namespace Lox.Decimal

/-- The decisions of one format. An order of magnitude is the exponent of the first digit. -/
structure Layout where
  tie : Tie
  /-- The least order of magnitude that is written positionally; none if all small ones are. -/
  lowest : Option Int
  /-- The greatest order of magnitude that is written positionally; none if all great ones are. -/
  highest : Option Int
  /-- What follows the digits of a whole number in positional notation. -/
  wholeMark : String
  /-- What stands before the digits of an exponent that is not negative. -/
  exponentSign : String
deriving DecidableEq, Repr, Inhabited

namespace Layout

def isPositional (f : Layout) (order : Int) : Bool :=
  f.lowest.all (· ≤ order) && f.highest.all (order ≤ ·)

private def zeros (n : Nat) : List Char :=
  List.replicate n '0'

/-- The digits with the point where it belongs: inside them, or after or before as many zeros as
it takes. -/
def positional (f : Layout) (digits : List Char) (exponent : Int) : List Char :=
  if 0 ≤ exponent then digits ++ zeros exponent.toNat ++ f.wholeMark.toList
  else
    let places := (-exponent).toNat
    if places < digits.length then
      digits.take (digits.length - places) ++ '.' :: digits.drop (digits.length - places)
    else '0' :: '.' :: zeros (places - digits.length) ++ digits

/-- One digit before the point, and the order of magnitude as exponent. -/
def scientific (f : Layout) (digits : List Char) (order : Int) : List Char :=
  let point := if digits.length ≤ 1 then [] else '.' :: digits.drop 1
  let exponent := if 0 ≤ order then f.exponentSign.toList ++ Nat.toDigits 10 order.toNat
    else '-' :: Nat.toDigits 10 (-order).toNat
  digits.take 1 ++ point ++ 'e' :: exponent

def digits (f : Layout) (d : Digits) : List Char :=
  let digits := Nat.toDigits 10 d.digits
  let order := d.exponent + digits.length - 1
  if f.isPositional order then f.positional digits d.exponent else f.scientific digits order

private def signed (negative : Bool) (body : List Char) : String :=
  String.ofList (if negative then '-' :: body else body)

/-- The text of a finite number; none for the infinities and for what is not a number. -/
def finite? (f : Layout) (x : Float) : Option String :=
  match decode x with
  | .notANumber | .infinite _ => none
  | .zero negative => some (signed negative ('0' :: f.wholeMark.toList))
  | .finite negative size => some (signed negative (f.digits (size.shortest f.tie)))

/-- The text of a number that is not finite, the same in every format that has one. -/
def nonFinite (x : Float) : String :=
  match decode x with
  | .infinite negative => signed negative "inf".toList
  | _ => "NaN"

/-- The text of any number. -/
def text (f : Layout) (x : Float) : String :=
  (f.finite? x).getD (nonFinite x)

end Layout

end Lox.Decimal
