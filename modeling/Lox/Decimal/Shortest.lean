/-!
The fewest decimal digits that determine a floating-point number.

A finite number other than zero is a significand times a power of two. The reals that round to it
form an interval, closed when the significand is even. `shortest` looks for the coarsest power of
ten that has a multiple in this interval and takes, of the two multiples around the number, the
nearer one that lies inside. All arithmetic is on natural numbers, so nothing is rounded on the way.
-/

namespace Lox.Decimal

/-- The size of a finite number other than zero, `significand * 2 ^ exponent`. `afterPower` holds
when the number is a power of two whose lower neighbour is half as far away as the upper one. -/
structure Magnitude where
  significand : Nat
  exponent : Int
  afterPower : Bool
deriving DecidableEq, Repr, Inhabited

/-- What a floating-point number is, sign and size apart. -/
inductive Decoded
  | notANumber
  | infinite (negative : Bool)
  | zero (negative : Bool)
  | finite (negative : Bool) (size : Magnitude)
deriving DecidableEq, Repr, Inhabited

/-- The leading bit of a significand, which is not among the 52 bits of fraction. -/
def leadingBit : Nat := 1 <<< 52

/-- Reads the sign, the eleven bits of exponent and the 52 bits of fraction. -/
def decode (x : Float) : Decoded :=
  let bits := x.toBits.toNat
  let negative := bits >>> 63 = 1
  let exponent := (bits >>> 52) % 2048
  let fraction := bits % leadingBit
  if exponent = 2047 then
    if fraction = 0 then .infinite negative else .notANumber
  else if exponent = 0 then
    if fraction = 0 then .zero negative else .finite negative ⟨fraction, -1074, false⟩
  else
    .finite negative ⟨leadingBit + fraction, (exponent : Int) - 1075, fraction = 0 && 1 < exponent⟩

/-- What to do when two multiples are equally near: take the upper one, or the even one. -/
inductive Tie
  | up
  | even
deriving DecidableEq, Repr, Inhabited

/-- A decimal number `digits * 10 ^ exponent`. -/
structure Digits where
  digits : Nat
  exponent : Int
deriving DecidableEq, Repr, Inhabited

/-! ## The interval -/

/-- A ratio of natural numbers. -/
structure Ratio where
  num : Nat
  den : Nat
deriving DecidableEq, Repr, Inhabited

/-- The ratio `n * 2 ^ e`. -/
def Ratio.scaled (n : Nat) (e : Int) : Ratio :=
  if 0 ≤ e then ⟨n <<< e.toNat, 1⟩ else ⟨n, 1 <<< (-e).toNat⟩

/-- The ratio divided by `10 ^ k`. -/
def Ratio.shift (r : Ratio) (k : Int) : Ratio :=
  if 0 ≤ k then ⟨r.num, r.den * Nat.pow 10 k.toNat⟩ else ⟨r.num * Nat.pow 10 (-k).toNat, r.den⟩

namespace Magnitude

/-- The number itself, in quarters of the last binary place. -/
def quarters (m : Magnitude) : Nat :=
  4 * m.significand

/-- The lower end of the interval, in quarters of the last binary place. -/
def low (m : Magnitude) : Nat :=
  m.quarters - if m.afterPower then 1 else 2

/-- The upper end of the interval, in quarters of the last binary place. -/
def high (m : Magnitude) : Nat :=
  m.quarters + 2

/-- Whether `n * 10 ^ k` rounds to the number. -/
def admits (m : Magnitude) (n : Nat) (k : Int) : Bool :=
  let low := (Ratio.scaled m.low (m.exponent - 2)).shift k
  let high := (Ratio.scaled m.high (m.exponent - 2)).shift k
  if m.significand % 2 = 0 then low.num ≤ n * low.den && n * high.den ≤ high.num
  else low.num < n * low.den && n * high.den < high.num

/-- The multiple of `10 ^ k` that stands for the number, if one rounds to it: of the two around
the number the nearer one that does. -/
def onGrid? (tie : Tie) (m : Magnitude) (k : Int) : Option Digits :=
  let r := (Ratio.scaled m.quarters (m.exponent - 2)).shift k
  let below := r.num / r.den
  let twice := 2 * (r.num % r.den)
  let upper := match compare twice r.den with
    | .lt => false
    | .gt => true
    | .eq => match tie with
      | .up => true
      | .even => below % 2 = 1
  match m.admits below k, m.admits (below + 1) k with
  | false, false => none
  | true, false => some ⟨below, k⟩
  | false, true => some ⟨below + 1, k⟩
  | true, true => some ⟨if upper then below + 1 else below, k⟩

/-- A power of ten above the number and everything that rounds to it. -/
def ceiling (m : Magnitude) : Int :=
  ((m.high.log2 : Int) + m.exponent - 1) * 30103 / 100000 + 2

/-- The coarsest grid with a multiple that rounds to the number, from `10 ^ k` down. -/
def search (tie : Tie) (m : Magnitude) : Nat → Int → Digits
  | 0, k => ⟨0, k⟩
  | steps + 1, k => match m.onGrid? tie k with
    | some d => d
    | none => search tie m steps (k - 1)

/-- Seventeen digits always determine a number; the search starts at most three places above its
first digit. -/
def shortest (tie : Tie) (m : Magnitude) : Digits :=
  m.search tie 24 m.ceiling

end Magnitude

end Lox.Decimal
