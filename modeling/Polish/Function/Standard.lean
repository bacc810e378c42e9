import Polish.Function.Binary

/-!
# The standard functions

The functions that a new engine knows, by name, as in `DEFAULT_FUNCTIONS`.  Those that round to
whole numbers never give a negative zero and let what is not finite pass (`_integral`); a logarithm
of zero is minus infinity (`_ln`); `exp` and `expm1` give infinity where they outgrow the doubles
(`_overflow_to_inf`), while `sinh` and `cosh` have no value there.

`random` is the one function that draws: its value is the first number that comes up, whatever its
arguments are.

The digits of the transcendental functions are those of the platform, which are rounded well but not
exactly.  `expm1` is not among the functions of the platform and is computed from `exp` and `log`;
its last digits may differ from those of a direct computation, at `37.0` and `0.1` for example.
Nothing below depends on them.
-/

set_option autoImplicit false

namespace Polish.Standard

/-! ## Logarithms, powers and roots -/

/-- The natural logarithm. -/
def ln (x : Float) : Except Fault Float :=
  if x == 0 then .ok Binary64.negInfinity
  else if x < 0 then .error .domain
  else .ok (Float.log x)

/-- The logarithm to a base. -/
def log (x base : Float) : Except Fault Float := do
  Binary.ratio (← ln x) (← ln base)

/-- The root of a degree. -/
def root (x degree : Float) : Except Fault Float := do
  Binary.power x (← Binary.ratio 1 degree)

/-- `exp x - 1` without loss near zero.  The division comes first, since the product of `exp x - 1`
and `x` would overflow earlier than the result. -/
def expMinusOne (x : Float) : Float :=
  let u := Float.exp x
  if u == 1 then x
  else if u - 1 == -1 then -1
  else if u.isInf then u
  else (u - 1) * (x / Float.log u)

/-! ## Whole numbers -/

/-- Applies a rounding function to finite numbers only and drops the sign of a zero. -/
def whole (f : Float → Float) (x : Float) : Float := if x.isFinite then f x + 0 else x

/-- The whole number towards zero. -/
def truncate (x : Float) : Float := if x < 0 then x.ceil else x.floor

/-- The nearest whole number; a half goes up. -/
def round (x : Float) : Float := (x + 0.5).floor

/-- `-1`, `0` or `1` by the sign of a number. -/
def sign (x : Float) : Float :=
  if x.isNaN then x else if 0 < x then 1 else if x < 0 then -1 else 0

/-- The nearest single precision number; infinity beyond the largest one. -/
def single (x : Float) : Float := x.toFloat32.toFloat

/-! ## Choices from a list -/

/-- The first argument that no later one exceeds. -/
def maximum : List Float → Float
  | [] => Binary64.negInfinity
  | x :: rest => rest.foldl (fun best y => if best < y then y else best) x

/-- The first argument that exceeds no later one. -/
def minimum : List Float → Float
  | [] => Binary64.infinity
  | x :: rest => rest.foldl (fun best y => if y < best then y else best) x

/-! ## The table -/

/-- The first number that comes up. -/
def random : Function := fun draw _ => .ok (draw 0)

/-- The standard functions by name. -/
def table : Table Function := Table.ofList [
  ("ln", .unary ln),
  ("log", .withDefault 10 log),
  ("sqrt", .withDefault 2 root),
  ("sin", .partialUnary Float.sin),
  ("cos", .partialUnary Float.cos),
  ("tan", .partialUnary Float.tan),
  ("sinh", .growing Float.sinh),
  ("cosh", .growing Float.cosh),
  ("tanh", .total Float.tanh),
  ("asin", .partialUnary Float.asin),
  ("acos", .partialUnary Float.acos),
  ("atan", .total Float.atan),
  ("asinh", .total Float.asinh),
  ("acosh", .partialUnary Float.acosh),
  ("atanh", .partialUnary Float.atanh),
  ("ceil", .total (whole Float.ceil)),
  ("floor", .total (whole Float.floor)),
  ("round", .total (whole round)),
  ("trunc", .total (whole truncate)),
  ("fround", .total single),
  ("abs", .total Float.abs),
  ("sign", .total sign),
  ("exp", .total Float.exp),
  ("expm1", .total expMinusOne),
  ("random", random),
  ("max", fun _ args => .ok (maximum args)),
  ("min", fun _ args => .ok (minimum args))]

end Polish.Standard
