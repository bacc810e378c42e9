import Polish.Compile.Basic

/-!
# Replays of compilations

A step names a move and a token and shows the output and the stack after the move.  A `Replay` is
what somebody knows who follows the moves only: the listing so far, the stack, and for each open
bracket how long the listing was when it came on the stack.  `Replay.after` makes the move, without
looking at what the step shows.  One thing happens without a step: when a separator has been
scanned, the argument before it leaves the listing (`Replay.separate`).

* `Replays` says of steps that every one of them shows what the replay of the moves has come to,
  with the tokens scanned one after another in between; `BreaksOff` is the same for steps that end
  in the middle.
* `Replays.last` — if no bracket is open in the end, the last step shows how things are then.

## What a replay does not look at

`Replay.after` is given the move and its token, and not the output and the stack of the step.  That
a step shows them is what is to be proved (`ShownBy`), so it must not go into the definition.  Nor
is the source looked at: the moments (`Moment`) say only which token is scanned when, which a reader
of the steps can see as well, and are needed for the splice at a separator and for nothing else.
-/

set_option autoImplicit false

namespace Polish

/-! ## The end at which a listing grows -/

namespace Mode

variable {α : Type}

/-- The part of a listing that was there when it had a length. -/
def keep (m : Mode) (n : Nat) (listing : List α) : List α :=
  match m with
  | rpn => listing.take n
  | pn => listing.drop (listing.length - n)

/-- The part of a listing that has grown since it had a length. -/
def since (m : Mode) (n : Nat) (listing : List α) : List α :=
  match m with
  | rpn => listing.drop n
  | pn => listing.take (listing.length - n)

theorem inOrder_cons (m : Mode) (a : α) (out : List α) :
    m.inOrder (a :: out) = m.join (m.inOrder out) [a] := by
  cases m
  · exact List.reverse_cons
  · rfl

theorem inOrder_drop (m : Mode) (n : Nat) (out : List α) :
    m.inOrder (out.drop (out.length - n)) = m.keep n (m.inOrder out) := by
  cases m
  · show (out.drop _).reverse = out.reverse.take n
    rw [List.take_reverse]
  · rfl

theorem inOrder_take (m : Mode) (n : Nat) (out : List α) :
    m.inOrder (out.take (out.length - n)) = m.since n (m.inOrder out) := by
  cases m
  · show (out.take _).reverse = out.reverse.drop n
    rw [List.drop_reverse]
  · rfl

end Mode

namespace Compile

/-! ## Replays -/

/-- An open bracket: the length of the listing when it came on the stack, and the arguments that
have been finished since, in reading order. -/
structure Opened where
  start : Nat
  args : List (List Token)

/-- What the moves so far have come to. -/
structure Replay where
  listing : List Token
  /-- The stack, its top last. -/
  stack : List Token
  /-- The open brackets, the innermost first. -/
  groups : List Opened
  /-- The bracket that was dropped last, until its arguments are attached. -/
  closed : Option Opened
  attached : List (Nat × List (List Token))

/-- The token that is being scanned, with the number that the steps then carry. -/
structure Moment where
  index : Int
  scanned : Option Token

/-- The moment at which a place is scanned. -/
def Place.moment (place : Place) : Moment := ⟨place.index, some place.token⟩

namespace Replay

def start : Replay := ⟨[], [], [], none, []⟩

/-- Makes a move with a token. -/
def after (m : Mode) (r : Replay) : Move → Token → Option Replay
  | .lookUp, _ => some r
  | .insertValue, token => some { r with listing := m.join r.listing [token] }
  | .pushOperator, token =>
    some { r with
      stack := r.stack ++ [token]
      groups := if token.kind = .operator then r.groups else ⟨r.listing.length, []⟩ :: r.groups }
  | .moveOperator, token =>
    if r.stack.getLast? = some token then
      some { r with listing := m.join r.listing [token], stack := r.stack.dropLast }
    else none
  | .dropBracket, token => match r.groups with
    | [] => none
    | group :: around =>
      if r.stack.getLast? = some token then
        some { r with stack := r.stack.dropLast, groups := around, closed := some group }
      else none
  | .attachArguments, token => r.closed.map fun group =>
    let argument := m.since group.start r.listing
    let args := if argument.isEmpty then group.args else m.join group.args [argument]
    { r with
      listing := m.keep group.start r.listing
      closed := none
      attached := r.attached ++ [(token.handle, args)] }

/-- Takes the argument before a separator off the listing.  There has to be one. -/
def separate (m : Mode) (r : Replay) : Option Replay :=
  match r.groups with
  | [] => none
  | group :: around =>
    let argument := m.since group.start r.listing
    if argument.isEmpty then none
    else some { r with
      listing := m.keep group.start r.listing
      groups := { group with args := m.join group.args [argument] } :: around }

/-- What happens without a step once a token has been scanned. -/
def pass (m : Mode) (moment : Moment) (r : Replay) : Option Replay :=
  if isKind .separator moment.scanned then r.separate m else some r

/-- The replay has come to the result of a compilation. -/
structure Ends (r : Replay) (c : Compiled) : Prop where
  listing : r.listing = c.listing
  stack : r.stack = []
  groups : r.groups = []
  attached : r.attached = c.attached

/-- What a step shows. -/
def ShownBy (m : Mode) (r : Replay) (step : Step) : Prop :=
  m.inOrder step.output = r.listing ∧ step.operators.reverse = r.stack

end Replay

/-- The steps while one token is scanned. -/
inductive Moves (m : Mode) (moment : Moment) : Replay → List Step → Replay → Prop
  | nil (r : Replay) : Moves m moment r [] r
  | cons {step : Step} {steps : List Step} {r r' r'' : Replay} (hindex : step.index = moment.index)
    (hscanned : step.scanned = moment.scanned) (hafter : r.after m step.move step.token = some r')
    (hshown : r'.ShownBy m step) (h : Moves m moment r' steps r'') :
    Moves m moment r (step :: steps) r''

/-- The steps while some tokens are scanned one after another. -/
inductive Replays (m : Mode) : List Moment → Replay → List Step → Replay → Prop
  | nil (r : Replay) : Replays m [] r [] r
  | cons {moment : Moment} {moments : List Moment} {steps rest : List Step} {r r₁ r₂ r' : Replay}
    (hmoves : Moves m moment r steps r₁) (hpass : r₁.pass m moment = some r₂)
    (h : Replays m moments r₂ rest r') : Replays m (moment :: moments) r (steps ++ rest) r'

/-- The steps up to some point while one of the tokens is scanned. -/
inductive BreaksOff (m : Mode) : List Moment → Replay → List Step → Prop
  | here {moment : Moment} {moments : List Moment} {steps : List Step} {r r' : Replay}
    (hmoves : Moves m moment r steps r') : BreaksOff m (moment :: moments) r steps
  | later {moment : Moment} {moments : List Moment} {steps rest : List Step} {r r₁ r₂ : Replay}
    (hmoves : Moves m moment r steps r₁) (hpass : r₁.pass m moment = some r₂)
    (h : BreaksOff m moments r₂ rest) : BreaksOff m (moment :: moments) r (steps ++ rest)

section

variable {m : Mode} {moment : Moment} {moments : List Moment} {steps steps' : List Step}
  {r r' r'' : Replay}

theorem Moves.append (h : Moves m moment r steps r') (h' : Moves m moment r' steps' r'') :
    Moves m moment r (steps ++ steps') r'' := by
  induction h with
  | nil => exact h'
  | cons hindex hscanned hafter hshown _ ih => exact .cons hindex hscanned hafter hshown (ih h')

/-! ## The last step -/

theorem Moves.last (h : Moves m moment r steps r') :
    (steps = [] ∧ r' = r) ∨ ∃ last, steps.getLast? = some last ∧ r'.ShownBy m last := by
  induction h with
  | nil => exact .inl ⟨rfl, rfl⟩
  | @cons step steps _ _ _ _ _ _ hshown _ ih =>
    rcases ih with ⟨rfl, rfl⟩ | ⟨last, hlast, hlastShown⟩
    · exact .inr ⟨step, rfl, hshown⟩
    · exact .inr ⟨last, by rw [List.getLast?_cons, hlast]; rfl, hlastShown⟩

/-- An argument is taken off only inside a bracket that stays open. -/
theorem Replay.eq_of_pass (h : r.pass m moment = some r') (hgroups : r'.groups = []) : r' = r := by
  rw [pass] at h
  split at h
  · exfalso
    rw [separate] at h
    split at h
    · cases h
    · dsimp only at h
      split at h
      · cases h
      · obtain rfl := Option.some.inj h
        cases hgroups
  · exact (Option.some.inj h).symm

/-- If no bracket is open in the end, the last step shows how things are in the end. -/
theorem Replays.last (h : Replays m moments r steps r') (hgroups : r'.groups = []) :
    (steps = [] ∧ r' = r) ∨ ∃ last, steps.getLast? = some last ∧ r'.ShownBy m last := by
  induction h with
  | nil => exact .inl ⟨rfl, rfl⟩
  | cons hmoves hpass _ ih =>
    rcases ih hgroups with ⟨rfl, rfl⟩ | ⟨last, hlast, hshown⟩
    · obtain rfl := Replay.eq_of_pass hpass hgroups
      rw [List.append_nil]
      exact hmoves.last
    · exact .inr ⟨last, by rw [List.getLast?_append, hlast]; rfl, hshown⟩

end

end Compile

end Polish
