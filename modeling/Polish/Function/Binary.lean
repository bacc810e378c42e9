import Polish.Function.Basic
import Polish.Number.Word32
import Polish.Table

/-!
# The binary functions

The ten functions that operators stand for, by name, as in `BINARY_FUNCTIONS`: a configuration calls
them by these names.  They follow the arithmetic of doubles except where that gives no number: the
remainder and the quotient of zero by zero have no value, and neither has a fractional power of a
negative number.

The remainder is computed on whole numbers and so is exact; it takes the sign of the dividend, and
a zero remainder does too.  The bitwise functions work on words of 32 bits.
-/

set_option autoImplicit false

namespace Polish.Binary

/-- The quotient; a number that is not zero divided by zero gives infinity with the sign of the
quotient. -/
def quotient (a b : Float) : Except Fault Float :=
  if b == 0 then
    if a == 0 || a.isNaN then .error .divisionByZero
    else .ok (Binary64.signedInfinity (Binary64.isNegative a != Binary64.isNegative b))
  else .ok (a / b)

/-- The quotient without a value at zero. -/
def ratio (a b : Float) : Except Fault Float :=
  if b == 0 then .error .divisionByZero else .ok (a / b)

/-- The remainder of two finite numbers, the second one not zero. -/
def finiteRemainder (a b : Dyadic) : Dyadic :=
  let place := min a.exponent b.exponent
  let n := a.significand <<< (a.exponent - place).toNat
  let d := b.significand <<< (b.exponent - place).toNat
  ⟨a.negative, n % d, place⟩

/-- What is left of `a` after as many times `b` as go into it. -/
def remainder (a b : Float) : Except Fault Float :=
  if a.isNaN || b.isNaN then .ok Binary64.nan
  else if a.isInf || b == 0 then .error .domain
  else if b.isInf then .ok a
  else .ok (Binary64.ofDyadic (finiteRemainder (Binary64.decode a) (Binary64.decode b)))

/-- The power.  A negative number has no fractional power, unless that would be too large for a
double in any case. -/
def power (a b : Float) : Except Fault Float :=
  if a.isFinite && a < 0 && b.isFinite && b.floor != b then
    let magnitude := Float.pow a.abs b
    if magnitude.isInf then .ok magnitude else .error (.noRealPower a b)
  else .ok (Float.pow a b)

/-- A function on signed numbers of 32 bits as a function on doubles. -/
def onWords (f : Int → Int → Int) (a b : Float) : Except Fault Float :=
  .ok (Binary64.ofInt (f (Word32.ofFloat a) (Word32.ofFloat b)))

/-- The binary functions by name. -/
def table : Table Function := Table.ofList [
  ("add", .binary fun a b => .ok (a + b)),
  ("sub", .binary fun a b => .ok (a - b)),
  ("mul", .binary fun a b => .ok (a * b)),
  ("div", .binary quotient),
  ("mod", .binary remainder),
  ("pow", .binary power),
  ("shl", .binary (onWords Word32.shiftLeft)),
  ("shr", .binary (onWords Word32.shiftRight)),
  ("and", .binary (onWords Word32.both)),
  ("or", .binary (onWords Word32.either))]

end Polish.Binary
