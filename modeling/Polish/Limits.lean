/-!
# Limits

Bounds on what an engine takes on: the length of a text, matches without progress at one offset,
arguments of one call, and the nesting of calls, as in `ExpressionLimits`.  A bound may be any whole
number, and one that is negative allows nothing at all.

`Limits.exceeded?` compares a count with one of them.  It is the one comparison that
`check_expression_length`, `check_function_arg_count` and `check_call_depth` make with three
different bounds; what they raise is a `LimitExceeded`, which says by name which bound it was.  The
bound on matches without progress is not among the three.  It is handed to the scan of a text, which
treats too many of them as a defect of the grammar (see `Polish.Grammar.Scan`).
-/

set_option autoImplicit false

namespace Polish

structure Limits where
  expressionLength : Int := 4096
  sameIndex : Int := 100
  functionArgs : Int := 16
  callDepth : Int := 32
deriving Repr, DecidableEq

namespace Limits

def standard : Limits := {}

/-- A limit that can be exceeded by the input itself. -/
inductive Which where
  | expressionLength
  | functionArgs
  | callDepth
deriving Repr, DecidableEq

def Which.name : Which → String
  | .expressionLength => "max_expression_length"
  | .functionArgs => "max_function_args"
  | .callDepth => "max_call_depth"

/-- The bound that a limit sets. -/
def bound (limits : Limits) : Which → Int
  | .expressionLength => limits.expressionLength
  | .functionArgs => limits.functionArgs
  | .callDepth => limits.callDepth

end Limits

/-- A limit that was exceeded, by what count, and where. -/
structure LimitExceeded where
  which : Limits.Which
  bound : Int
  actual : Int
  position : Option Int
deriving Repr, DecidableEq

def LimitExceeded.message (e : LimitExceeded) : String :=
  s!"Limit exceeded: {e.which.name} (limit: {e.bound}, actual: {e.actual})"

namespace Limits

/-- Finds a count that is above its limit. -/
def exceeded? (limits : Limits) (which : Which) (count : Int) (position : Option Int) :
    Option LimitExceeded :=
  if limits.bound which < count then some ⟨which, limits.bound which, count, position⟩ else none

theorem exceeded?_eq_none_iff {limits : Limits} {which : Which} {count : Int}
    {position : Option Int} :
    limits.exceeded? which count position = none ↔ count ≤ limits.bound which := by
  unfold exceeded?
  split
  · simp only [reduceCtorEq, false_iff]; omega
  · simp only [true_iff]; omega

end Limits

end Polish
