import Literate.Number.Double

/-!
# General notation

A double is written with a number of significant digits. It is rounded to them first, which tells
its decimal exponent: below minus four, or not below the number of digits, it takes the scientific
form. Otherwise it takes the plain form, for which it is rounded again, to as many digits after the
point as make up the number of significant ones. Zeros at the end of a fraction are left out.
-/

namespace Literate

/-- A positive number rounded to some significant digits: the digits as one number, and the
decimal exponent of the first of them. -/
structure Rounded where
  digits : Nat
  exponent : Int
  deriving DecidableEq, Repr

namespace Rounded

/-- The place of the leading decimal digit of `n / d`: the greatest `e` with `10 ^ e ≤ n / d`. -/
def decimalExponent (n d : Nat) : Int :=
  let a := Decimal.size n
  let b := Decimal.size d
  if d * Nat.pow 10 a ≤ n * Nat.pow 10 b then (a : Int) - b else (a : Int) - b - 1

/-- Rounds `n / d` to `p` significant digits, to the nearest, the even one of two. Rounding up
may add a digit, which moves the exponent. -/
def ofRatio (p n d : Nat) : Rounded :=
  let e := decimalExponent n d
  let shift : Int := (p : Int) - 1 - e
  let digits := nearest (n * Nat.pow 10 shift.toNat) (d * Nat.pow 10 (-shift).toNat)
  if digits = Nat.pow 10 p then ⟨Nat.pow 10 (p - 1), e + 1⟩ else ⟨digits, e⟩

end Rounded

namespace General

/-- A whole part and a fraction. Zeros at the end of the fraction are dropped, and the point with
the last of them. -/
def withFraction (whole fraction : Text) : Text :=
  match fraction.dropEndWhile (· = '0') with
  | [] => whole
  | kept => whole ++ '.' :: kept

/-- The exponent of the scientific form: a sign and at least two digits. -/
def exponentText (e : Int) : Text :=
  let digits := Decimal.ofNat e.natAbs
  (if e < 0 then '-' else '+') :: (if digits.length < 2 then '0' :: digits else digits)

/-- One digit before the point, and the exponent. -/
def scientific (r : Rounded) : Text :=
  let digits := Decimal.ofNat r.digits
  withFraction (digits.take 1) (digits.drop 1) ++ 'e' :: exponentText r.exponent

/-- The digits after the point that make up `p` significant ones where the first has a decimal
exponent. -/
def decimals (p : Nat) (exponent : Int) : Nat :=
  ((p : Int) - 1 - exponent).toNat

/-- The text of `n / d` rounded to some digits after the point. -/
def plain (decimals n d : Nat) : Text :=
  let digits := Decimal.ofNat (nearest (n * Nat.pow 10 decimals) d)
  let padded := List.replicate (decimals + 1 - digits.length) '0' ++ digits
  withFraction (padded.take (padded.length - decimals)) (padded.drop (padded.length - decimals))

/-- Whether a number rounded to `p` digits takes the scientific form. -/
def isScientific (p : Nat) (r : Rounded) : Bool :=
  r.exponent < -4 || p ≤ r.exponent

/-- The text of `n / d` with `p` significant digits. -/
def magnitudeText (p n d : Nat) : Text :=
  let r := Rounded.ofRatio p n d
  if isScientific p r then scientific r else plain (decimals p r.exponent) n d

/-- The text of a double with a number of significant digits, at least one. -/
def write (x : Double) (precision : Nat) : Text :=
  let unsigned :=
    if x.isNaN then "nan".toList
    else if x.isInfinite then "inf".toList
    else if x.isZero then ['0']
    else magnitudeText (max precision 1) x.ratio.1 x.ratio.2
  if x.negative then '-' :: unsigned else unsigned

end General

end Literate
