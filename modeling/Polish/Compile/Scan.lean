import Polish.Compile.Basic

/-!
# Compiling: the two scans

`Job.visitForward` scans one token from the left, `Job.visitBackward` one from the right.  They
share the treatment of values, operators and brackets and differ in when they learn what a bracket
belongs to.  From the left, the name of a call comes before its bracket, so each argument is counted
as soon as it ends, and a separator outside a call is refused where it stands.  From the right, the
arguments of a group are collected first, and the name, if there is one, decides what they were.

`Job.run` is the whole compilation.  Nothing is attached to the tokens before it has succeeded; the
arguments are part of its result.

## What this follows

The two visits are the bodies of the loops in `_scan_forward` and `_scan_reverse`, with a branch for
each kind of token, and `Job.scan` is the loop.  `closeCall` is `_close_arguments`, `endArgument`
and `endSegment` are the branches for separators, `collectArguments` is `_collect_arguments`, and
`Job.flush` is `_flush`.  `Job.run` is `run`: the tokens must not have been compiled
(`_check_not_compiled`), then comes the scan, then whatever is left on the stack.

What is not the same for a list in which one call object stands inside its own brackets is said in
`Polish.Compile.Basic`.
-/

set_option autoImplicit false

namespace Polish.Compile

namespace Job

variable (job : Job)

/-! ## From the left -/

/-- Completes a call whose closing bracket has been scanned. -/
def closeCall (s : State) (place : Place) (owner : Token) (group : Group) : Run State := do
  let (argument, s) := job.takeArgument s group
  if argument.isEmpty then
    if group.args.isEmpty then s.attach place owner []
    else job.stopAt .emptyArgument place
  else
    let args := argument :: group.args
    job.checkCount owner args.length
    s.attach place owner args.reverse

/-- Ends an argument of the innermost call. -/
def endArgument (s : State) (place : Place) (group : Group) (around : List Group)
    (owner : Token) : Run State := do
  let (output, operators) ←
    job.popUntil place .openBracket .unmatchedSeparator s.operators s.output
  let (argument, s) := job.takeArgument { s with output, operators } group
  if argument.isEmpty then job.stopAt .emptyArgument place
  else
    let args := argument :: group.args
    job.checkCount owner args.length
    return { s with groups := { group with args } :: around }

/-- Scans a token from the left. -/
def visitForward (s : State) (place : Place) : Run State :=
  match place.token.kind with
  | .number | .constant =>
    (s.putOut place.token).report place .insertValue place.token .nothing
  | .call => do
    let s ← (s.putOut place.token).report place .insertValue place.token .nothing
    if isKind .openBracket place.after then return s
    else job.stopAt .noBracketAfterCall place
  | .operator => job.pushOperator s place
  | .openBracket =>
    let owner := if isKind .call place.before then place.before else none
    s.openGroup place owner .openBracket
  | .closeBracket => do
    let (group, s) ← job.closeGroup s place .openBracket .unmatchedClose
    match group.owner with
    | none =>
      job.checkNotEmpty s group
      return s
    | some owner => job.closeCall s place owner group
  | .separator => match s.groups with
    | [] => job.stopAt .separatorOutside place
    | group :: around => match group.owner with
      | none => job.stopAt .separatorOutside place
      | some owner => job.endArgument s place group around owner
  | .other _ => job.stopAt (.unknownKind place.token.text) place

/-! ## From the right -/

/-- Counts the arguments of a call one after another. -/
def checkCounts (owner : Token) (count : Nat) : Run Unit :=
  (List.range count).foldl (fun run i => run.bind fun _ => job.checkCount owner (i + 1))
    (.answer ())

/-- Completes a call whose name has been scanned. -/
def collectArguments (s : State) (place : Place) (group : Group) : Run State := do
  let (argument, s) := job.takeArgument s group
  if argument.isEmpty && !group.args.isEmpty then
    job.stop .emptyArgument group.index group.bracket
  else
    let args := if argument.isEmpty then group.args else argument :: group.args
    job.checkCounts place.token args.length
    s.attach place place.token args

/-- Ends an argument of the innermost group, call or not. -/
def endSegment (s : State) (place : Place) (group : Group) (around : List Group) :
    Run State := do
  let (output, operators) ←
    job.popUntil place .closeBracket .unmatchedSeparator s.operators s.output
  let (argument, s) := job.takeArgument { s with output, operators } group
  if argument.isEmpty then job.stopAt .emptyArgument place
  else
    let group := { group with
      args := argument :: group.args, separator := some (place.token, place.index) }
    return { s with groups := group :: around }

/-- Scans the opening bracket of a group, which completes it. -/
def completeGroup (s : State) (place : Place) : Run State := do
  let (group, s) ← job.closeGroup s place .closeBracket .unmatchedOpen
  let group := { group with bracket := place.token, index := place.index }
  if isKind .call place.before then return { s with pending := some group }
  else match group.separator with
    | some (separator, index) => job.stop .separatorOutside index separator
    | none =>
      job.checkNotEmpty s group
      return { s with pending := none }

/-- Scans a token from the right. -/
def visitBackward (s : State) (place : Place) : Run State :=
  match place.token.kind with
  | .number | .constant =>
    (s.putOut place.token).report place .insertValue place.token .nothing
  | .call => match s.pending with
    | none => job.stopAt .noBracketAfterCall place
    | some group => do
      let s ← job.collectArguments s place group
      ({ s with pending := none }.putOut place.token).report place .insertValue place.token .nothing
  | .operator => job.pushOperator s place
  | .closeBracket => s.openGroup place none .closeBracket
  | .openBracket => job.completeGroup s place
  | .separator => match s.groups with
    | [] => job.stopAt .separatorOutside place
    | group :: around => job.endSegment s place group around
  | .other _ => job.stopAt (.unknownKind place.token.text) place

/-! ## The whole scan -/

/-- Scans one token in the direction of the notation. -/
def visit (s : State) (place : Place) : Run State :=
  match job.mode with
  | .rpn => job.visitForward s place
  | .pn => job.visitBackward s place

/-- Scans one token after another. -/
def scan : List Place → State → Run State
  | [], s => .answer s
  | place :: rest, s => do
    let s ← job.visit s place
    scan rest s

/-- The index that the steps after the last token carry. -/
def lastIndex : Int :=
  match job.mode with
  | .rpn => job.tokens.length
  | .pn => -1

/-- Moves the operators that are left to the output. -/
def flush : List Token → List Token → Run (List Token)
  | [], output => .answer output
  | top :: below, output =>
    .emit ⟨.moveOperator, top, job.lastIndex, none, top :: output, below, .leftover⟩
      (flush below (top :: output))

/-- Refuses a bracket that is still without a partner, the innermost one first. -/
def checkClosed (s : State) : Run Unit :=
  match s.groups with
  | [] => .answer ()
  | group :: _ =>
    let defect := match job.mode with
      | .rpn => .unmatchedOpen
      | .pn => .unmatchedClose
    job.stop defect group.index group.bracket

/-- The first call that has arguments attached to it already. -/
def firstCompiled? (sheet : Sheet) : Option Place :=
  (places job.tokens).find? fun place =>
    place.token.kind = .call && (sheet.args? place.token.handle).isSome

/-- Refuses tokens that have been compiled before. -/
def checkFresh : Run Unit :=
  .look fun now => match job.firstCompiled? now.sheet with
    | some place => job.stopAt .alreadyCompiled place
    | none => .answer ()

/-- Compiles the tokens. -/
def run : Run Compiled := do
  job.checkFresh
  let s ← job.scan (job.mode.scanOrder (places job.tokens)) .start
  job.checkClosed s
  let output ← job.flush s.operators s.output
  let now ← Stepwise.surroundings
  return {
    listing := job.mode.inOrder output
    attached := s.attached.reverse
    evaluable := (now.registries.firstUnknown? job.tokens).isNone }

end Job

end Polish.Compile
