import Polish.Number.Binary64
import Polish.Number.Shortest

/-!
# Functions on doubles

A function takes any number of doubles and gives a double or a `Fault`, the reason why it has no
value there.  Taking the wrong number of arguments is a fault like any other, so every function can
be applied to every list of arguments.  This is what `MathFunction` and `OperatorFunction` are to
the evaluator, which catches whatever an application raises and reports it in the name of the token.

A function may also draw numbers at random.  Which ones come is nothing that a program decides, so
they are an argument: each application is handed the numbers that it may draw, in order, and
theorems speak about all of them.  `Function.DrawsNothing` says that a function makes no use of
them; a text that calls only such functions has one value.

Two things are left out.  A function here has no memory of its own: one that counts how often it was
called, say, can be described only as far as its results can be taken for drawn numbers.  And all
that a function may raise is one of the errors that the evaluator catches, those of arithmetic,
value and type; any other one would end the evaluation without a result.  A result is a double at
once: where the evaluator converts what a function returns, the function is meant together with the
conversion.
-/

set_option autoImplicit false

namespace Polish

/-- Why a function has no value. -/
inductive Fault where
  | divisionByZero
  | domain
  | range
  | noRealPower (base exponent : Float)
  | arity
  | refused (reason : String)

def Fault.message : Fault → String
  | .divisionByZero => "float division by zero"
  | .domain => "math domain error"
  | .range => "math range error"
  | .noRealPower base exponent =>
    s!"{Shortest.text base} ^ {Shortest.text exponent} has no real result"
  | .arity => "TypeError"
  | .refused reason => reason

/-- The numbers that come up in one application of a function, should it draw any. -/
abbrev Draw := Nat → Float

/-- A function of any number of arguments, which may draw numbers. -/
abbrev Function := Draw → List Float → Except Fault Float

namespace Function

/-- It does not matter to the function what numbers come up. -/
def DrawsNothing (f : Function) : Prop := ∀ draw draw' args, f draw args = f draw' args

/-! ## Functions of a fixed number of arguments -/

/-- A function of exactly one argument. -/
def unary (f : Float → Except Fault Float) : Function := fun _ args =>
  match args with
  | [x] => f x
  | _ => .error .arity

/-- A function of exactly two arguments. -/
def binary (f : Float → Float → Except Fault Float) : Function := fun _ args =>
  match args with
  | [x, y] => f x y
  | _ => .error .arity

/-- A function of two arguments whose second one may be left out. -/
def withDefault (standard : Float) (f : Float → Float → Except Fault Float) : Function :=
  fun _ args => match args with
  | [x] => f x standard
  | [x, y] => f x y
  | _ => .error .arity

/-- A function of one argument that is undefined where its formula gives no number or a pole. -/
def partialUnary (f : Float → Float) : Function := unary fun x =>
  let y := f x
  if (y.isNaN && !x.isNaN) || (y.isInf && x.isFinite) then .error .domain else .ok y

/-- A function of one argument that may grow beyond the largest double. -/
def growing (f : Float → Float) : Function := unary fun x =>
  let y := f x
  if y.isInf && x.isFinite then .error .range else .ok y

/-- A function of one argument that has a value everywhere. -/
def total (f : Float → Float) : Function := unary fun x => .ok (f x)

end Function

end Polish
