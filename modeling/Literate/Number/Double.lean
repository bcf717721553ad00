import Literate.Number.Decimal
import Literate.Number.Nearest

/-!
# Double-precision numbers

A double is its 64 bits: a sign, eleven bits of exponent and fifty-two of fraction. A finite
magnitude is an exact quotient of natural numbers, and a quotient is rounded to the nearest double
in exact arithmetic. Order, conversion and sign changes read the bits; sums, products, quotients,
square roots and powers are those of the machine, except that a result which is no number has no
sign.
-/

namespace Literate

/-- A double-precision number, given by its bits. -/
structure Double where
  bits : UInt64
  deriving DecidableEq, Repr, Inhabited

namespace Double

/-- The bits of the magnitude of the infinities. -/
def infinityBits : Nat := 0x7FF * Nat.pow 2 52

/-- Whether the sign bit is set. -/
def negative (x : Double) : Bool :=
  Nat.pow 2 63 ≤ x.bits.toNat

/-- The bits without the sign, in the order of the magnitudes. -/
def magnitude (x : Double) : Nat :=
  x.bits.toNat % Nat.pow 2 63

/-- The double of a sign and the bits of a magnitude. -/
def ofMagnitude (negative : Bool) (magnitude : Nat) : Double :=
  ⟨UInt64.ofNat (if negative then Nat.pow 2 63 + magnitude else magnitude)⟩

def isNaN (x : Double) : Bool :=
  infinityBits < x.magnitude

def isInfinite (x : Double) : Bool :=
  x.magnitude = infinityBits

def isZero (x : Double) : Bool :=
  x.magnitude = 0

/-- Positive zero. -/
def zero : Double := ⟨0⟩

/-- Changes the sign, also that of a zero or of no number. -/
def neg (x : Double) : Double :=
  ofMagnitude (!x.negative) x.magnitude

/-- Clears the sign. -/
def abs (x : Double) : Double :=
  ofMagnitude false x.magnitude

/-- The exact magnitude of a finite double, as numerator and denominator. -/
def ratio (x : Double) : Nat × Nat :=
  let exponent := x.magnitude / Nat.pow 2 52
  let fraction := x.magnitude % Nat.pow 2 52
  if exponent = 0 then (fraction, Nat.pow 2 1074)
  else if 1075 ≤ exponent then ((Nat.pow 2 52 + fraction) * Nat.pow 2 (exponent - 1075), 1)
  else (Nat.pow 2 52 + fraction, Nat.pow 2 (1075 - exponent))

/-- The place of the leading binary digit of `n / d`: the greatest `e` with `2 ^ e ≤ n / d`. -/
def binaryExponent (n d : Nat) : Int :=
  let e : Int := (n.log2 : Int) - d.log2
  if d * Nat.pow 2 e.toNat ≤ n * Nat.pow 2 (-e).toNat then e else e - 1

/-- The bits of the magnitude nearest to `n / d`: the last place is that of the fifty-third binary
digit, but no lower than that of the least positive double. -/
def nearestMagnitude (n d : Nat) : Nat :=
  if n = 0 then 0 else
  let place : Int := max (binaryExponent n d - 52) (-1074)
  let units := nearest (n * Nat.pow 2 (-place).toNat) (d * Nat.pow 2 place.toNat)
  min ((place + 1074).toNat * Nat.pow 2 52 + units) infinityBits

/-- The double nearest to `digits * 10 ^ exponent`. A magnitude that is out of range by its number
of digits alone is not computed. -/
def ofScientific (digits : Nat) (exponent : Int) : Double :=
  let reach : Int := Decimal.size digits + exponent
  ofMagnitude false <|
    if digits = 0 ∨ reach < -330 then 0
    else if 400 < reach then infinityBits
    else nearestMagnitude (digits * Nat.pow 10 exponent.toNat) (Nat.pow 10 (-exponent).toNat)

/-- The double nearest to an integer. -/
def ofInt (n : Int) : Double :=
  ofMagnitude (n < 0) (nearestMagnitude n.natAbs 1)

/-- The integer part, kept within the signed 64-bit range. What is no number gives zero. -/
def toInt64 (x : Double) : Int64 :=
  if x.isNaN then 0 else
  let whole : Nat := if x.isInfinite then Nat.pow 2 63 else x.ratio.1 / x.ratio.2
  let signed : Int := if x.negative then -whole else whole
  Int64.ofInt (max Int64.minValue.toInt (min signed Int64.maxValue.toInt))

/-- The place of a number in the order of the doubles. Both zeros have the same. -/
def rank (x : Double) : Int :=
  if x.negative then -x.magnitude else x.magnitude

/-- The order of two doubles, undefined where one is no number. -/
def order (x y : Double) : Option Ordering :=
  if x.isNaN || y.isNaN then none else some (compare x.rank y.rank)

/-- The machine's view of a double. -/
def toFloat (x : Double) : Float :=
  Float.ofBits x.bits

/-- The bits of a number of the machine. Results that are no number all get the same bits, without a
sign: which sign an operation gives them is left to the machine that computes, and on some machines
the quotient of two zeros has one. -/
def ofFloat (f : Float) : Double :=
  ⟨f.toBits⟩

def add (x y : Double) : Double := ofFloat (x.toFloat + y.toFloat)

def sub (x y : Double) : Double := ofFloat (x.toFloat - y.toFloat)

def mul (x y : Double) : Double := ofFloat (x.toFloat * y.toFloat)

def div (x y : Double) : Double := ofFloat (x.toFloat / y.toFloat)

def sqrt (x : Double) : Double := ofFloat x.toFloat.sqrt

def pow (x y : Double) : Double := ofFloat (x.toFloat.pow y.toFloat)

end Double

end Literate
