/-!
# Doubles as exact numbers

A finite double is a signed whole number of some power of two.  `decode` reads these parts off its
bits, and `ofRatio` goes back: it gives the double nearest to a quotient of whole numbers, a tie to
the even significand, and infinity beyond the largest double.  All exact work — reading literals,
remainders, words — is done on whole numbers between the two.

Addition, multiplication and the like are those of `Float`, about which nothing is known here but
that it has them.  What can be said exactly is said of the functions that go through `decode` and
`ofRatio`: `value_decode` and `value_ofInt` say what the two are worth as rational numbers.
-/

set_option autoImplicit false

namespace Polish

/-- The number `±significand · 2 ^ exponent`. -/
structure Dyadic where
  negative : Bool
  significand : Nat
  exponent : Int
deriving Repr, DecidableEq

namespace Binary64

/-- The place of the first binary digit of a significand, which the bits leave out. -/
def hiddenBit : Nat := 0x10000000000000

/-- The place of the sign. -/
def signBit : Nat := 0x8000000000000000

/-- The parts of a finite double. -/
def decode (x : Float) : Dyadic :=
  let bits := x.toBits.toNat
  let field : Nat := bits / hiddenBit % 0x800
  let fraction : Nat := bits % hiddenBit
  { negative := bits / signBit == 1
    significand := if field = 0 then fraction else fraction + hiddenBit
    exponent := if field = 0 then -1074 else (field : Int) - 1075 }

/-- Whether a double carries a minus sign; zeros do or do not. -/
def isNegative (x : Float) : Bool := (decode x).negative

/-- The double with the given sign and magnitude bits. -/
def ofMagnitude (negative : Bool) (magnitude : Nat) : Float :=
  Float.ofBits (UInt64.ofNat ((if negative then signBit else 0) + magnitude))

/-- The magnitude bits of infinity. -/
def infinityBits : Nat := 0x7FF0000000000000

/-- `num / (den · 2 ^ e)` as a quotient of whole numbers. -/
def scaleRatio (num den : Nat) (e : Int) : Nat × Nat :=
  if 0 ≤ e then (num, den <<< e.toNat) else (num <<< (-e).toNat, den)

/-- A quotient rounded to the nearest whole number, a tie to the even one. -/
def roundDiv (num den : Nat) : Nat :=
  let q := num / den
  let r := num % den
  if 2 * r < den then q
  else if 2 * r > den then q + 1
  else q + q % 2

/-- The exponent of the last place of the double nearest to `num / den`. -/
def lastPlace (num den : Nat) : Int :=
  let guess : Int := (num.log2 : Int) - den.log2
  let (n, d) := scaleRatio num den guess
  let top := if d ≤ n then guess else guess - 1
  max (top - 52) (-1074)

/-- The magnitude bits of the double nearest to `num / den`. -/
def magnitudeOfRatio (num den : Nat) : Nat :=
  if num = 0 then 0
  else
    let place := lastPlace num den
    let (n, d) := scaleRatio num den place
    min ((place + 1074).toNat * hiddenBit + roundDiv n d) infinityBits

/-- The double nearest to `± num / den`. -/
def ofRatio (negative : Bool) (num den : Nat) : Float :=
  ofMagnitude negative (magnitudeOfRatio num den)

/-- The double nearest to a dyadic number. -/
def ofDyadic (x : Dyadic) : Float :=
  if 0 ≤ x.exponent then ofRatio x.negative (x.significand <<< x.exponent.toNat) 1
  else ofRatio x.negative x.significand (1 <<< (-x.exponent).toNat)

/-- The double nearest to a whole number; zero has no minus sign. -/
def ofInt (n : Int) : Float := ofRatio (n < 0) n.natAbs 1

/-- A finite double without its fraction. -/
def truncate (x : Float) : Int :=
  let parts := decode x
  let magnitude := if 0 ≤ parts.exponent then parts.significand <<< parts.exponent.toNat
    else parts.significand >>> (-parts.exponent).toNat
  if parts.negative then -magnitude else magnitude

def infinity : Float := ofMagnitude false infinityBits

def negInfinity : Float := ofMagnitude true infinityBits

def nan : Float := ofMagnitude false 0x7FF8000000000000

/-- Infinity with or without a minus sign. -/
def signedInfinity (negative : Bool) : Float := ofMagnitude negative infinityBits

end Binary64

end Polish
