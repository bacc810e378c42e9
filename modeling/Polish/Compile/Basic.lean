import Polish.Failure
import Polish.Mode
import Polish.Registry
import Polish.Sheet
import Polish.Stepwise

/-!
# Compiling: what a scan works on

A token list is compiled into a listing in one scan: from left to right for the notation with the
operators last, from right to left for the other.  Values go straight to the output.  Operators
wait on a stack until the operands on both sides are out; brackets wait there too and keep what is
inside apart.  Each open bracket has a `Group`, which remembers how long the output was when it
opened, so that the argument of a call can be taken off the output again.

This file holds the state of such a scan, its steps, and the parts that both directions share:

* `pushOperator` — the operators that bind before the new one leave the stack, then it goes on;
* `popUntil` — the operators inside a bracket leave the stack when the other bracket comes;
* `takeArgument` — what was put out since the bracket opened becomes an argument.

All lists grow at their head: the newest token of the output, the innermost group and the top of
the stack come first in both directions.  `Mode.inOrder` is what turns a piece of output into
reading order.

## What this follows

A `Job` is a `NotationBuilder`, and a `State` is what it changes while it runs: the output, the
stack of operators, the frames (`Group` is `_BracketFrame`) and the arguments found so far.  The
functions are its methods `_push_operator`, `_pop_until`, `_splice` (`takeArgument`),
`_attach_argument` (`checkCount`), `_check_group_not_empty` (`checkNotEmpty`), `_step`
(`State.report`) and `_error` (`stop`).  `closeGroup` is `_pop_until` with the bracket dropped and
the frame taken off, which the two scans do in the same way.  `firstUnknown?` is `is_evaluable`.

One thing is kept differently.  The builder collects arguments in a table by call, `_params`, one
argument after another; here they are collected in the group that the call's bracket opened, and
`State.attach` writes them down when the group is complete.  The two come to the same as long as a
call object stands at one place of the list, which is so in every list that comes from a text.  In a
list made by hand one call object may stand inside its own brackets, and then they differ: in the
table the arguments of the inner place and of the outer one run together, while here the outer place
has its own.  Theorems about arguments ask for tokens with different handles.
-/

set_option autoImplicit false

namespace Polish

/-- What compiling and evaluating look at: the registries and the arguments attached so far, as
they are at the time. -/
structure Surroundings where
  registries : Registries
  sheet : Sheet

namespace Registries

/-- Whether everything that a token needs for its value is registered. -/
def knows (r : Registries) (token : Token) : Bool :=
  match token.kind with
  | .constant => r.constants.contains token.text
  | .call => r.functions.contains token.text
  | _ => true

/-- The first token that names an unknown constant or function. -/
def firstUnknown? (r : Registries) (tokens : List Token) : Option Token :=
  tokens.find? fun token => !r.knows token

end Registries

namespace Compile

/-! ## Tokens in their places -/

/-- A token with its number in the list and its neighbours there. -/
structure Place where
  token : Token
  index : Nat
  before : Option Token
  after : Option Token
deriving Repr, DecidableEq

/-- The tokens of a list in their places, given the token before them and the first number. -/
def placesFrom : Option Token → Nat → List Token → List Place
  | _, _, [] => []
  | before, index, token :: rest =>
    ⟨token, index, before, rest.head?⟩ :: placesFrom (some token) (index + 1) rest

def places (tokens : List Token) : List Place := placesFrom none 0 tokens

/-- Whether a neighbour is there and of some kind. -/
def isKind (kind : Kind) (token : Option Token) : Bool := token.any (·.kind = kind)

/-! ## Steps -/

/-- What a step of the compiler does. -/
inductive Move where
  | lookUp
  | insertValue
  | pushOperator
  | moveOperator
  | dropBracket
  | attachArguments
deriving Repr, DecidableEq

def Move.name : Move → String
  | .lookUp => "lookup"
  | .insertValue => "insertValue"
  | .pushOperator => "insertOpStack"
  | .moveOperator => "popMoveOpStack"
  | .dropBracket => "popOpStack"
  | .attachArguments => "updateParams"

/-- Why a step is taken. -/
inductive Remark where
  | nothing
  | level (symbol : String) (level : Int)
  | outranked (top : String) (topLevel : Int) (symbol : String) (level : Int)
  | untilBracket
  | leftover
  | bracketLeftOut
  | openBracket
  | closeBracket
  | arguments
deriving Repr, DecidableEq

def Remark.text : Remark → String
  | .nothing => ""
  | .level symbol n => s!"Operator {symbol} has level {n}"
  | .outranked top m symbol n =>
    let comparison := if m = n then "=" else ">"
    s!"Higher precedence: {top} ({m}) {comparison} {symbol} ({n})"
  | .untilBracket => "Pop until bracket is found"
  | .leftover => "Leftover operator"
  | .bracketLeftOut => "Bracket is not included in the notation"
  | .openBracket => "Inserting open bracket"
  | .closeBracket => "Inserting close bracket"
  | .arguments => "Attaching function parameters"

/-- A step of the compiler: the token that is moved, the token that is being scanned with its
number, and output and stack as they are after the move, newest first. -/
structure Step where
  move : Move
  token : Token
  index : Int
  scanned : Option Token
  output : List Token
  operators : List Token
  remark : Remark
deriving Repr, DecidableEq

/-! ## State -/

/-- What is inside a bracket whose partner has not been scanned. -/
structure Group where
  bracket : Token
  index : Nat
  /-- The length of the output when the bracket was scanned. -/
  start : Nat
  /-- The call that the bracket belongs to, where that is known beforehand. -/
  owner : Option Token
  /-- The finished arguments, newest first, each in reading order. -/
  args : List (List Token)
  /-- The separator scanned last, with its number. -/
  separator : Option (Token × Nat)
deriving Repr, DecidableEq

/-- How far a scan has come. -/
structure State where
  output : List Token
  operators : List Token
  groups : List Group
  /-- A bracket group that is complete and waits for the name of its call. -/
  pending : Option Group
  /-- The arguments of the calls that are complete, under their handles. -/
  attached : List (Nat × List (List Token))
deriving Repr, DecidableEq

namespace State

def start : State := ⟨[], [], [], none, []⟩

/-- Puts a token out. -/
def putOut (s : State) (token : Token) : State := { s with output := token :: s.output }

/-- Puts a token on the stack. -/
def push (s : State) (token : Token) : State := { s with operators := token :: s.operators }

end State

/-- A compilation: what is fixed while it runs. -/
structure Job where
  mode : Mode
  limits : Limits
  source : Option String
  tokens : List Token

/-- A computation that hands out compiler steps. -/
abbrev Run := Stepwise Surroundings Step Failure

/-- Goes on from a state after showing how it was reached. -/
def State.report (s : State) (place : Place) (move : Move) (token : Token) (remark : Remark) :
    Run State :=
  .emit ⟨move, token, place.index, some place.token, s.output, s.operators, remark⟩ (.answer s)

/-- Scans a bracket that opens a group. -/
def State.openGroup (s : State) (place : Place) (owner : Option Token) (remark : Remark) :
    Run State :=
  let group : Group := ⟨place.token, place.index, s.output.length, owner, [], none⟩
  let s := { s with operators := place.token :: s.operators, groups := group :: s.groups }
  s.report place .pushOperator place.token remark

/-- Writes down the arguments of a call. -/
def State.attach (s : State) (place : Place) (owner : Token) (args : List (List Token)) :
    Run State :=
  let s := { s with attached := (owner.handle, args) :: s.attached }
  s.report place .attachArguments owner .arguments

namespace Job

variable (job : Job)

/-- Stops with a defect of the given token. -/
def stop {α : Type} (defect : Defect) (index : Nat) (token : Token) : Run α :=
  .fail (.compile ⟨defect, index, token, job.source⟩)

/-- Stops with a defect of the token that is being scanned. -/
def stopAt {α : Type} (defect : Defect) (place : Place) : Run α :=
  job.stop defect place.index place.token

/-! ## Operators -/

/-- Whether the operator on top of the stack leaves it before a new one is pushed.  It does if its
level is higher; between equals it does if the new operator groups against the direction of the
scan. -/
def leaves (mode : Mode) (operator top : Operator) : Bool :=
  if top.level = operator.level then operator.rightAssociative == (mode == .pn)
  else operator.level < top.level

/-- Moves the operators that bind before the new one from the stack to the output. -/
def popOutranked (place : Place) (operator : Operator) :
    List Token → List Token → Run (List Token × List Token)
  | [], output => .answer (output, [])
  | top :: below, output =>
    if top.kind ≠ .operator then .answer (output, top :: below)
    else .look fun now => match now.registries.operators.find? top.text with
      | none => .answer (output, top :: below)
      | some topOperator =>
        if leaves job.mode operator topOperator then
          .emit ⟨.moveOperator, top, place.index, some place.token, top :: output, below,
              .outranked top.text topOperator.level place.token.text operator.level⟩
            (popOutranked place operator below (top :: output))
        else .answer (output, top :: below)

/-- Scans an operator. -/
def pushOperator (s : State) (place : Place) : Run State :=
  .look fun now => match now.registries.operators.find? place.token.text with
    | none => job.stopAt (.unknownOperator place.token.text) place
    | some operator => do
      let s ← s.report place .lookUp place.token (.level place.token.text operator.level)
      let (output, operators) ← job.popOutranked place operator s.operators s.output
      let s := { s with output, operators := place.token :: operators }
      s.report place .pushOperator place.token .nothing

/-! ## Brackets -/

/-- Moves the operators above the nearest bracket of a kind from the stack to the output. -/
def popUntil (place : Place) (kind : Kind) (unmatched : Defect) :
    List Token → List Token → Run (List Token × List Token)
  | [], _ => job.stopAt unmatched place
  | top :: below, output =>
    if top.kind = kind then .answer (output, top :: below)
    else .emit ⟨.moveOperator, top, place.index, some place.token, top :: output, below,
        .untilBracket⟩
      (popUntil place kind unmatched below (top :: output))

/-- Scans a bracket that closes the innermost group: the operators inside go out, and the bracket
that opened it is dropped. -/
def closeGroup (s : State) (place : Place) (kind : Kind) (unmatched : Defect) :
    Run (Group × State) := do
  let (output, operators) ← job.popUntil place kind unmatched s.operators s.output
  match operators, s.groups with
  | bracket :: below, group :: around => do
    let s := { s with output, operators := below }
    let s ← s.report place .dropBracket bracket .bracketLeftOut
    return (group, { s with groups := around })
  | _, _ => job.stopAt unmatched place

/-- Refuses a bracket pair with nothing inside that belongs to no call. -/
def checkNotEmpty (s : State) (group : Group) : Run Unit :=
  if s.output.length = group.start then job.stop .emptyBrackets group.index group.bracket
  else .answer ()

/-! ## Arguments -/

/-- Takes what was put out since a group began off the output again, in reading order. -/
def takeArgument (s : State) (group : Group) : List Token × State :=
  let count := s.output.length - group.start
  (job.mode.inOrder (s.output.take count), { s with output := s.output.drop count })

/-- Finds more arguments than a call may have. -/
def checkCount (owner : Token) (count : Nat) : Run Unit :=
  match job.limits.exceeded? .functionArgs count (some owner.pos) with
  | some e => .fail (.limit e)
  | none => .answer ()

end Job

/-- The result of a compilation. -/
structure Compiled where
  listing : List Token
  /-- The arguments of the calls, to be attached to their tokens. -/
  attached : List (Nat × List (List Token))
  /-- Whether every constant and function that the tokens name was registered at the end. -/
  evaluable : Bool

end Compile

end Polish
