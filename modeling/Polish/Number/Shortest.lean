import Polish.Number.Binary64

/-!
# The shortest decimal of a double

The decimal with the fewest digits that reads back as the double, and of these the nearest to it.
For one digit, two digits and so on the value is put between two neighbours on the grid of decimals
with that many digits; the first grid on which a neighbour reads back is the one.  Seventeen digits
always suffice.

The text is positional from `0.0001` up to below `10 ^ 16`, with at least one digit after the
point, and has an exponent of at least two digits otherwise.
-/

set_option autoImplicit false

namespace Polish.Shortest

/-- The number of decimal digits of a positive whole number. -/
def digitCount (n : Nat) : Nat := (Nat.toDigits 10 n).length

/-- `num / den · 10 ^ e` as a quotient of whole numbers. -/
def scaleTen (num den : Nat) (e : Int) : Nat × Nat :=
  if 0 ≤ e then (num * Nat.pow 10 e.toNat, den) else (num, den * Nat.pow 10 (-e).toNat)

/-- The place of the leading decimal digit of a positive quotient: `10 ^ place ≤ num / den`. -/
def leadingPlace (num den : Nat) : Int :=
  if den ≤ num then (digitCount (num / den) : Int) - 1
  else
    let guess : Int := -(digitCount (den / num) : Int)
    let (n, d) := scaleTen num den (-(guess + 1))
    if d ≤ n then guess + 1 else guess

/-- Whether `digits · 10 ^ place` reads back as the double with the given magnitude bits. -/
def readsBack (magnitude digits : Nat) (place : Int) : Bool :=
  let (n, d) := scaleTen digits 1 place
  Binary64.magnitudeOfRatio n d == magnitude

/-- The neighbour of the value on the grid of `count` digits that reads back, the nearer one if
both do. -/
def onGrid? (magnitude num den count : Nat) : Option (Nat × Int) :=
  let place := leadingPlace num den - (count - 1)
  let (n, d) := scaleTen num den (-place)
  let below := n / d
  let preferred := if 2 * (n % d) < d ∨ (2 * (n % d) = d ∧ below % 2 = 0) then below else below + 1
  let second := if preferred = below then below + 1 else below
  if readsBack magnitude preferred place then some (preferred, place)
  else if readsBack magnitude second place then some (second, place)
  else none

/-- The digits and the place of the last one, for the double with the given magnitude bits and the
value `num / den`. -/
def digits (magnitude num den : Nat) : Nat × Int :=
  ((List.range 17).findSome? fun i => onGrid? magnitude num den (i + 1)).getD (0, 0)

/-- An exponent with its sign and at least two digits. -/
def exponentText (e : Int) : String :=
  let body := Nat.repr e.natAbs
  "e" ++ (if e < 0 then "-" else "+") ++ (if body.length < 2 then "0" ++ body else body)

/-- Digits with the place of the first one as a text. -/
def layout (ds : List Char) (top : Int) : String :=
  if top < -4 ∨ 16 ≤ top then
    let fraction := ds.drop 1
    String.ofList (ds.take 1) ++ (if fraction.isEmpty then "" else "." ++ String.ofList fraction)
      ++ exponentText top
  else if top < 0 then
    "0." ++ String.ofList (List.replicate (-top - 1).toNat '0' ++ ds)
  else
    let width := top.toNat + 1
    let whole := ds.take width ++ List.replicate (width - ds.length) '0'
    let fraction := ds.drop width
    String.ofList whole ++ "." ++ (if fraction.isEmpty then "0" else String.ofList fraction)

/-- The text of a double. -/
def text (x : Float) : String :=
  if x.isNaN then "nan"
  else
    let sign := if Binary64.isNegative x then "-" else ""
    if x.isInf then sign ++ "inf"
    else
      let parts := Binary64.decode x
      if parts.significand = 0 then sign ++ "0.0"
      else
        let (num, den) := Binary64.scaleRatio parts.significand 1 (-parts.exponent)
        let (found, place) := digits (Binary64.magnitudeOfRatio num den) num den
        let ds := Nat.toDigits 10 found
        let top := place + ds.length - 1
        let kept := (ds.reverse.dropWhile (· == '0')).reverse
        sign ++ layout kept top

end Polish.Shortest
