import Polish.Number.Binary64
import Polish.Text.Blank
import Polish.Text.Digit

/-!
# Number literals

The written numbers that evaluation accepts: an optional sign, decimal digits of any script with an
optional point and an optional exponent, or one of the words `inf`, `infinity` and `nan` in any
case; blanks around it do not count, and a single underscore may stand between two digits.  The
value is the double nearest to what is written.

The evaluator leaves the reading of a number token to `float`, and this is what that accepts, which
is more than the number rule of the arithmetic grammar lets through: a listing may be built by hand
from tokens with any text.  Reading goes part by part, sign, digits, fraction and exponent, each
taken off the front of what is left, and the parts meet in `ofDecimal` as one quotient of whole
numbers, so that there is one rounding and it is the last step.
-/

set_option autoImplicit false

namespace Polish.Literal

/-! ## The text made plain -/

/-- The blanks that may surround a literal: white space, but none of the information
separators. -/
def isOuterBlank (c : Char) : Bool := Text.isBlank c && !(28 ≤ c.toNat && c.toNat ≤ 31)

/-- A character with digits of every script written as the ASCII ones. -/
def plainChar (c : Char) : Char :=
  match Text.digitValue? c with
  | some d => Nat.digitChar d
  | none => c

/-- Takes the underscores between digits out; any other underscore makes the text no literal. -/
def joinGroups? : Bool → List Char → Option (List Char)
  | _, [] => some []
  | afterDigit, '_' :: c :: rest =>
    if afterDigit && c.isDigit then (joinGroups? true rest).map (c :: ·) else none
  | _, c :: rest => if c = '_' then none else (joinGroups? c.isDigit rest).map (c :: ·)

/-! ## Its parts -/

/-- A sign off the front; `true` is a minus. -/
def sign : List Char → Bool × List Char
  | '-' :: rest => (true, rest)
  | '+' :: rest => (false, rest)
  | s => (false, s)

/-- The value of a run of ASCII digits. -/
def natOfDigits (digits : List Char) : Nat :=
  digits.foldl (fun n c => 10 * n + (c.toNat - '0'.toNat)) 0

/-- The exponent that ends a literal; nothing counts as zero. -/
def exponent? : List Char → Option Int
  | [] => some 0
  | c :: rest =>
    if c = 'e' ∨ c = 'E' then
      let (negative, digits) := sign rest
      if digits.isEmpty || !digits.all Char.isDigit then none
      else some (if negative then -natOfDigits digits else natOfDigits digits)
    else none

/-- The double nearest to `± digits · 10 ^ exponent`.  Magnitudes far beyond the range of doubles
are not computed. -/
def ofDecimal (negative : Bool) (digits : List Char) (exponent : Int) : Float :=
  let digits := digits.dropWhile (· == '0')
  let top : Int := digits.length + exponent
  if digits.isEmpty || top < -400 then Binary64.ofMagnitude negative 0
  else if 400 < top then Binary64.signedInfinity negative
  else if 0 ≤ exponent then
    Binary64.ofRatio negative (natOfDigits digits * Nat.pow 10 exponent.toNat) 1
  else Binary64.ofRatio negative (natOfDigits digits) (Nat.pow 10 (-exponent).toNat)

/-- The value of an unsigned literal of digits, a point and an exponent. -/
def decimal? (negative : Bool) (s : List Char) : Option Float :=
  let whole := s.takeWhile Char.isDigit
  let rest := s.dropWhile Char.isDigit
  let (fraction, rest) := match rest with
    | '.' :: more => (more.takeWhile Char.isDigit, more.dropWhile Char.isDigit)
    | _ => ([], rest)
  if whole.isEmpty && fraction.isEmpty then none
  else (exponent? rest).map fun e => ofDecimal negative (whole ++ fraction) (e - fraction.length)

/-- The value of one of the words for what is no finite number. -/
def word? (negative : Bool) (s : List Char) : Option Float :=
  let word := String.ofList (s.map Char.toLower)
  if word = "inf" ∨ word = "infinity" then some (Binary64.signedInfinity negative)
  else if word = "nan" then some Binary64.nan
  else none

/-- The value of a literal, if the text is one. -/
def read? (text : String) : Option Float := do
  let plain := (Text.trimChars isOuterBlank text.toList).map plainChar
  let joined ← joinGroups? false plain
  let (negative, body) := sign joined
  word? negative body <|> decimal? negative body

end Polish.Literal
