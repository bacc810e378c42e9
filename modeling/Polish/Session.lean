import Polish.Engine

/-!
# Sessions

A session keeps what outlives a single call: engines whose tables change over time, the sheets on
which the arguments of tokens stand, and runs that have been started and are pulled step by step.

Everything is known by its number.  A run remembers the numbers of its engine and its sheet, and
each pull shows it both as they are then; so registering an operator or finishing another
compilation of the same tokens is noticed by a run that is under way.  A compilation writes on its
sheet only when it ends, and only if it succeeds.

In the program all of this is objects that are shared: a token that several lists hold, the tables
of an engine, a generator that a `Stepper` wraps.  A number here is the identity of such an object,
`Session.pull` is the stepper's `step`, `Session.finish` is its `run` together with the steps that
an iteration over it would show, and `Session.status` is what `done` and `result` say in between.
-/

set_option autoImplicit false

namespace Polish

/-- Tokens with the sheet that their arguments stand on: the tokens of a text, or a listing made
from them. -/
structure Strip where
  sheet : Nat
  tokens : List Token

/-- What a compilation gives: a listing on its sheet, and whether it can be evaluated. -/
structure Listing where
  strip : Strip
  evaluable : Bool

/-- A computation in progress. -/
inductive ActiveRun where
  | compilation (engine sheet : Nat)
    (stepper : Stepper Surroundings Compile.Step Failure (Except Failure Compile.Compiled))
  | evaluation (engine sheet : Nat)
    (stepper : Stepper Surroundings Evaluate.Step Failure (Except Failure Float))

/-- A step of either kind of run. -/
inductive AnyStep where
  | compile (step : Compile.Step)
  | evaluate (step : Evaluate.Step)

/-- The result of either kind of run. -/
inductive AnyResult where
  | compiled (result : Except Failure Listing)
  | evaluated (result : Except Failure Float)

structure Session where
  engines : Array Engine
  sheets : Array Sheet
  runs : Array ActiveRun

namespace Session

open Evaluate (Draws)

/-- A session with one engine, number zero. -/
def start (engine : Engine) : Session := ⟨#[engine], #[], #[]⟩

def engine (s : Session) (id : Nat) : Engine := s.engines.getD id Engine.standard

def sheet (s : Session) (id : Nat) : Sheet := s.sheets.getD id .empty

/-- The tokens of a strip with their arguments in place. -/
def items (s : Session) (strip : Strip) : List Item := (s.sheet strip.sheet).expand strip.tokens

/-! ## Engines -/

/-- Adds an engine; its number is the number of engines before. -/
def addEngine (s : Session) (engine : Engine) : Session :=
  { s with engines := s.engines.push engine }

def changeEngine (s : Session) (id : Nat) (change : Engine → Engine) : Session :=
  { s with engines := s.engines.setIfInBounds id (change (s.engine id)) }

/-! ## Whole stages -/

/-- Starts a sheet for some tokens, with arguments that are attached already. -/
def addStrip (s : Session) (sheet : Sheet) (tokens : List Token) : Strip × Session :=
  (⟨s.sheets.size, tokens⟩, { s with sheets := s.sheets.push sheet })

/-- Writes the outcome of a compilation on its sheet. -/
def settle (s : Session) (sheet : Nat) (result : Except Failure Compile.Compiled) :
    Except Failure Listing × Session :=
  match result with
  | .error failure => (.error failure, s)
  | .ok compiled =>
    let written := (s.sheet sheet).attachAll compiled.attached
    (.ok ⟨⟨sheet, compiled.listing⟩, compiled.evaluable⟩,
      { s with sheets := s.sheets.setIfInBounds sheet written })

/-- Compiles a strip at once. -/
def compile (s : Session) (engine : Nat) (strip : Strip) (mode : String)
    (source : Option String) : Except Failure Listing × Session :=
  s.settle strip.sheet
    ((s.engine engine).compile (s.sheet strip.sheet) strip.tokens mode source)

/-- Evaluates a strip at once. -/
def evaluate (s : Session) (draws : Draws) (engine : Nat) (strip : Strip) (mode : String)
    (source : Option String) : Except Failure Float :=
  (s.engine engine).evaluateListing draws (s.sheet strip.sheet) strip.tokens mode source

/-! ## Runs -/

/-- Begins a compilation; its number is the number of runs before. -/
def beginCompile (s : Session) (engine : Nat) (strip : Strip) (mode : String)
    (source : Option String) : Except Failure Session := do
  let run ← (s.engine engine).compilation strip.tokens mode source
  return { s with runs := s.runs.push (.compilation engine strip.sheet (.live run.attempt)) }

/-- Begins an evaluation. -/
def beginEvaluate (s : Session) (draws : Draws) (engine : Nat) (strip : Strip) (mode : String)
    (source : Option String) : Session :=
  let run := (s.engine engine).evaluation draws strip.tokens mode source
  { s with runs := s.runs.push (.evaluation engine strip.sheet (.live run)) }

/-- What a compilation that has ended gives, read as things are now. -/
def listingOf (sheet : Nat) (result : Except Failure Compile.Compiled) :
    Except Failure Listing :=
  result.map fun compiled => ⟨⟨sheet, compiled.listing⟩, compiled.evaluable⟩

/-- Pulls a run once. -/
def pull (s : Session) (id : Nat) : Except Failure (Outcome AnyStep AnyResult) × Session :=
  match s.runs[id]? with
  | none => (.ok (.done none), s)
  | some (.compilation engine sheet stepper) =>
    let (outcome, after) := stepper.step ((s.engine engine).surroundings (s.sheet sheet))
    let s := { s with runs := s.runs.setIfInBounds id (.compilation engine sheet after) }
    match outcome with
    | .error failure => (.error failure, s)
    | .ok (.step step) => (.ok (.step (.compile step)), s)
    | .ok (.done none) => (.ok (.done none), s)
    | .ok (.done (some result)) =>
      if stepper.isDone then (.ok (.done (some (.compiled (listingOf sheet result)))), s)
      else
        let (result, s) := s.settle sheet result
        (.ok (.done (some (.compiled result))), s)
  | some (.evaluation engine sheet stepper) =>
    let (outcome, after) := stepper.step ((s.engine engine).surroundings (s.sheet sheet))
    let s := { s with runs := s.runs.setIfInBounds id (.evaluation engine sheet after) }
    match outcome with
    | .error failure => (.error failure, s)
    | .ok (.step step) => (.ok (.step (.evaluate step)), s)
    | .ok (.done result) => (.ok (.done (result.map .evaluated)), s)

/-- Pulls a run to its end: the steps that were left and the result. -/
def finish (s : Session) (id : Nat) :
    List AnyStep × Except Failure (Option AnyResult) × Session :=
  match s.runs[id]? with
  | none => ([], .ok none, s)
  | some (.compilation engine sheet stepper) =>
    let (steps, result, after) := stepper.drain ((s.engine engine).surroundings (s.sheet sheet))
    let s := { s with runs := s.runs.setIfInBounds id (.compilation engine sheet after) }
    let steps := steps.map .compile
    match result with
    | .error failure => (steps, .error failure, s)
    | .ok none => (steps, .ok none, s)
    | .ok (some result) =>
      if stepper.isDone then (steps, .ok (some (.compiled (listingOf sheet result))), s)
      else
        let (result, s) := s.settle sheet result
        (steps, .ok (some (.compiled result)), s)
  | some (.evaluation engine sheet stepper) =>
    let (steps, result, after) := stepper.drain ((s.engine engine).surroundings (s.sheet sheet))
    let s := { s with runs := s.runs.setIfInBounds id (.evaluation engine sheet after) }
    (steps.map .evaluate, result.map fun found => found.map .evaluated, s)

/-- Whether a run has ended, and its result once a pull has found the end. -/
def status (s : Session) (id : Nat) : Bool × Option AnyResult :=
  match s.runs[id]? with
  | none => (false, none)
  | some (.compilation _ sheet stepper) =>
    (stepper.isDone, stepper.result?.map fun result => .compiled (listingOf sheet result))
  | some (.evaluation _ _ stepper) => (stepper.isDone, stepper.result?.map .evaluated)

end Session

end Polish
