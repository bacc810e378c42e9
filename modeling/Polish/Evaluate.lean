import Polish.Compile.Basic
import Polish.Number.Literal

/-!
# Evaluating a listing

A listing is evaluated on a stack: a number, a constant or the value of a call is pushed, and an
operator replaces two values by one.  The listing with operators last is read from the left, the
other one from the right; read that way, the newest value is the right operand in the first case
and the left one in the second.

A call evaluates each of its argument lists on a stack of its own and applies the function to the
results.  Arguments are found on the sheet when the call is reached.  Calls may be nested up to the
limit; the levels that are left bound the recursion, and `Job.evaluate` is structural in them.

The result is the one value on the stack at the end.

## What this follows

`Job.evaluate` is `_evaluate`, the recursion that hands out a step at each of its transitions, and
`Job.run` is `run`, which puts the result behind them.  The branches of the loop over the tokens are
`Job.number`, `Job.constant`, `Job.call` and `Job.operator`; `Job.apply` is `_apply`, and `Job.stop`
makes the failure that `_error` makes.  Running with or without stepping is one computation here,
which is watched or not (see `Polish.Stepwise`).

Three things about what an evaluation depends on:

* *Draws.*  What a function draws is an argument of the job: `Draws` has, for each token by its
  handle, the numbers that come up when a function is applied on its behalf.  An evaluation comes to
  each token of a compiled listing once, so in this way any numbers can come up anywhere.  The one
  listing for which that is less than what may happen is one that holds a token twice: it draws the
  same numbers both times.
* *Depth.*  Calls are nested as deeply as the limit allows.  That a process may run out of stack
  before, when the limit is set to thousands, is not described.
* *Names.*  A token of an engine that was changed between compiling and evaluating is looked up as
  the tables are when the evaluation comes to it; so `Surroundings` are asked for at each token.
-/

set_option autoImplicit false

namespace Polish.Evaluate

/-! ## Steps -/

/-- What a step of the evaluator does. -/
inductive Move where
  | insertValue
  | operation
  | call
  | updateStack
  | result
deriving Repr, DecidableEq

def Move.name : Move → String
  | .insertValue => "insertValue"
  | .operation => "operation"
  | .call => "funcCall"
  | .updateStack => "updateStack"
  | .result => "result"

/-- A step of the evaluator: the token with its place in its listing, the stack after the step,
newest value first, the value that came of it, and whether all this is inside an argument.  The
operands of an operator are the left one and the right one. -/
structure Step where
  move : Move
  token : Option Token
  index : Int
  stack : List Float
  value : Float
  nested : Bool
  operands : Option (Float × Float)

/-- A computation that hands out evaluator steps. -/
abbrev Run := Stepwise Surroundings Step Failure

/-- The numbers that come up on behalf of each token, by its handle. -/
abbrev Draws := Nat → Draw

/-- An evaluation: what is fixed while it runs. -/
structure Job where
  mode : Mode
  limits : Limits
  source : Option String
  draws : Draws

/-- The part of an evaluation that is on one stack. -/
structure Frame where
  /-- How many calls it is inside of. -/
  depth : Nat
  /-- The call whose argument it is. -/
  caller : Option Token

def Frame.nested (f : Frame) : Bool := 0 < f.depth

namespace Job

variable (job : Job)

/-- Stops at a token. -/
def stop {α : Type} (cause : EvalCause) (token : Option Token) (stack : List Float) : Run α :=
  .fail (.eval ⟨cause, token, stack, job.source⟩)

/-- Applies a function on behalf of a token. -/
def apply (function : Function) (args : List Float) (token : Token) (stack : List Float) :
    Run Float :=
  match function (job.draws token.handle) args with
  | .ok value => .answer value
  | .error reason => job.stop (.fault token.text reason) (some token) stack

/-! ## Single tokens -/

/-- Pushes a value and shows it. -/
def pushValue (frame : Frame) (token : Token) (index : Nat) (stack : List Float) (value : Float) :
    Run (List Float) :=
  .emit ⟨.insertValue, token, index, value :: stack, value, frame.nested, none⟩
    (.answer (value :: stack))

def number (frame : Frame) (token : Token) (index : Nat) (stack : List Float) :
    Run (List Float) :=
  match Literal.read? token.text with
  | none => job.stop (.invalidNumber token.text) (some token) stack
  | some value => pushValue frame token index stack value

def constant (frame : Frame) (token : Token) (index : Nat) (stack : List Float) :
    Run (List Float) :=
  .look fun now => match now.registries.constants.find? token.text with
    | none => job.stop (.unknownConstant token.text) (some token) stack
    | some value => pushValue frame token index stack value

/-- The left and the right operand on the stack, and what is below them. -/
def operands? : List Float → Option (Float × Float × List Float)
  | newest :: older :: below => match job.mode with
    | .rpn => some (older, newest, below)
    | .pn => some (newest, older, below)
  | _ => none

def operator (frame : Frame) (token : Token) (index : Nat) (stack : List Float) :
    Run (List Float) :=
  match job.operands? stack with
  | none => job.stop (.missingOperands token.text) (some token) stack
  | some (left, right, below) =>
    .look fun now => match now.registries.operators.find? token.text with
      | none => job.stop (.unknownOperator token.text) (some token) stack
      | some op => do
        let value ← job.apply op.function [left, right] token below
        .emit ⟨.operation, token, index, value :: below, value, frame.nested, some (left, right)⟩
          (.answer (value :: below))

/-! ## Calls -/

/-- Evaluates one argument of a call. -/
abbrev Argument := Token → List Token → Run Float

/-- The values of a call's arguments, from the first to the last. -/
def argumentValues (argument : List Token → Run Float) : List (List Token) → Run (List Float)
  | [] => .answer []
  | tokens :: rest => do
    let value ← argument tokens
    let values ← argumentValues argument rest
    return value :: values

/-- Evaluates a call.  Without a way to evaluate arguments, the limit has been reached. -/
def call (frame : Frame) (deeper : Option Argument) (token : Token) (index : Nat)
    (stack : List Float) : Run (List Float) :=
  .look fun now => match now.registries.functions.find? token.text with
    | none => job.stop (.unknownFunction token.text) (some token) stack
    | some function => match now.sheet.args? token.handle with
      | none => job.stop (.noArguments token.text) (some token) stack
      | some args => match deeper with
        | none => .fail (.limit
            ⟨.callDepth, job.limits.callDepth, frame.depth + 1, some token.pos⟩)
        | some argument => do
          let values ← argumentValues (argument token) args
          .emit ⟨.updateStack, token, index, stack, 0, frame.nested, none⟩ (.answer ())
          let value ← job.apply function values token stack
          .emit ⟨.call, token, index, value :: stack, value, frame.nested, none⟩
            (.answer (value :: stack))

/-! ## Listings -/

/-- Evaluates one token after another on a stack. -/
def tokens (frame : Frame) (deeper : Option Argument) :
    List (Token × Nat) → List Float → Run (List Float)
  | [], stack => .answer stack
  | (token, index) :: rest, stack => do
    let stack ← match token.kind with
      | .number => job.number frame token index stack
      | .constant => job.constant frame token index stack
      | .call => job.call frame deeper token index stack
      | .operator => job.operator frame token index stack
      | .openBracket | .closeBracket | .separator | .other _ =>
        job.stop (.unexpectedToken token.text) (some token) stack
    tokens frame deeper rest stack

/-- The one value that a listing leaves on the stack. -/
def listing (frame : Frame) (deeper : Option Argument) (list : List Token) : Run Float := do
  let stack ← job.tokens frame deeper (job.mode.scanOrder list.zipIdx) []
  match stack with
  | [value] => return value
  | _ => job.stop .stackLength (list.getLast? <|> frame.caller) stack

/-- Evaluates a listing with a number of levels of calls left. -/
def evaluate : Nat → Frame → List Token → Run Float
  | 0, frame, list => job.listing frame none list
  | levels + 1, frame, list =>
    let argument : Argument := fun caller list =>
      let inner : Frame := ⟨frame.depth + 1, some caller⟩
      .emit ⟨.updateStack, some caller, -1, [], 0, true, none⟩ (evaluate levels inner list)
    job.listing frame (some argument) list

/-- Evaluates a whole listing. -/
def run (list : List Token) : Run Float := do
  let value ← job.evaluate job.limits.callDepth.toNat ⟨0, none⟩ list
  .emit ⟨.result, none, list.length, [value], value, false, none⟩ (.answer value)

end Job

end Polish.Evaluate
