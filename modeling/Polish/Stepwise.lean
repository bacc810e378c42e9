/-!
# Computations that can be watched

`Stepwise ε σ φ α` is a computation that hands out steps of type `σ` on its way, may look at its
surroundings `ε` whenever it needs them, and ends with an answer of type `α` or fails with a `φ`.
The compiler and the evaluator are written once in this form and run in two ways:

* `eager` runs a computation to its end in unchanging surroundings and drops the steps
  (`run_to_completion`);
* a `Stepper` is pulled from outside, one step at a time, and each time shows the computation the
  surroundings as they are then.

This is a generator as a tree: where it yields there is an `emit`, and where it reads something that
others may change between two pulls there is a `look`, so that a pull sees what is there at the time
of the pull.  A generator that is run without stepping goes through the same code and yields
nothing; here the same computation is run and its steps are dropped, and `trace_snd` says that
watching does not change the answer.

A `Stepper` has three states, as a generator has: `live` with what remains to be done, `finished`
with the result that was found, and `spent` after a failure.  A pull of a spent one finds a
generator that has ended without a result, and from then on the stepper is done with no result
(`Stepper.step`).

`trace` is the list of the steps together with the answer.  What a computation does after another
one is said once for each of these views (`eager_bind`, `trace_bind`), so that nothing about the
compiler or the evaluator has to unfold `bind`.
-/

set_option autoImplicit false

namespace Polish

inductive Stepwise (ε σ φ α : Type) where
  | answer (value : α)
  | fail (failure : φ)
  | look (next : ε → Stepwise ε σ φ α)
  | emit (step : σ) (next : Stepwise ε σ φ α)

namespace Stepwise

variable {ε σ φ ψ α β : Type}

/-! ## Sequencing -/

def bind : Stepwise ε σ φ α → (α → Stepwise ε σ φ β) → Stepwise ε σ φ β
  | answer value, f => f value
  | fail failure, _ => fail failure
  | look next, f => look fun surroundings => (next surroundings).bind f
  | emit step next, f => emit step (next.bind f)

instance : Monad (Stepwise ε σ φ) where
  pure := answer
  bind := bind

/-- The surroundings as they are now. -/
def surroundings : Stepwise ε σ φ ε := look answer

/-- Turns a failure into an answer, so that the computation itself never fails. -/
def attempt : Stepwise ε σ φ α → Stepwise ε σ ψ (Except φ α)
  | answer value => answer (.ok value)
  | fail failure => answer (.error failure)
  | look next => look fun surroundings => (next surroundings).attempt
  | emit step next => emit step next.attempt

/-- A result that is at hand already. -/
def ofExcept : Except φ α → Stepwise ε σ φ α
  | .ok value => answer value
  | .error failure => fail failure

theorem pure_eq (value : α) : (pure value : Stepwise ε σ φ α) = answer value := rfl

theorem bind_eq (c : Stepwise ε σ φ α) (f : α → Stepwise ε σ φ β) : (c >>= f) = c.bind f := rfl

@[simp] theorem answer_bind (value : α) (f : α → Stepwise ε σ φ β) :
    (answer value).bind f = f value := rfl

@[simp] theorem fail_bind (failure : φ) (f : α → Stepwise ε σ φ β) :
    (fail failure : Stepwise ε σ φ α).bind f = fail failure := rfl

@[simp] theorem bind_answer (c : Stepwise ε σ φ α) : c.bind answer = c := by
  induction c with
  | answer | fail => rfl
  | look next ih => rw [bind]; congr; funext e; exact ih e
  | emit step next ih => rw [bind, ih]

theorem bind_assoc {γ : Type} (c : Stepwise ε σ φ α) (f : α → Stepwise ε σ φ β)
    (g : β → Stepwise ε σ φ γ) : (c.bind f).bind g = c.bind fun a => (f a).bind g := by
  induction c with
  | answer | fail => rfl
  | look next ih => simp only [bind]; congr; funext e; exact ih e
  | emit step next ih => simp only [bind, ih]

/-! ## Running -/

/-- Runs to the end and drops the steps. -/
def eager (surroundings : ε) : Stepwise ε σ φ α → Except φ α
  | answer value => .ok value
  | fail failure => .error failure
  | look next => (next surroundings).eager surroundings
  | emit _ next => next.eager surroundings

/-- The steps in order, and how the computation ends. -/
def trace (surroundings : ε) : Stepwise ε σ φ α → List σ × Except φ α
  | answer value => ([], .ok value)
  | fail failure => ([], .error failure)
  | look next => (next surroundings).trace surroundings
  | emit step next =>
    let (steps, result) := next.trace surroundings
    (step :: steps, result)

/-- Watching a computation does not change how it ends. -/
theorem trace_snd (e : ε) (c : Stepwise ε σ φ α) : (c.trace e).2 = c.eager e := by
  induction c with
  | answer | fail => rfl
  | look next ih => exact ih e
  | emit step next ih => exact ih

theorem eager_bind (e : ε) (c : Stepwise ε σ φ α) (f : α → Stepwise ε σ φ β) :
    (c.bind f).eager e = (c.eager e).bind fun a => (f a).eager e := by
  induction c with
  | answer | fail => rfl
  | look next ih => exact ih e
  | emit step next ih => exact ih

/-- The steps of one computation after another are those of the first, then those of the second
if the first has an answer. -/
theorem trace_bind (e : ε) (c : Stepwise ε σ φ α) (f : α → Stepwise ε σ φ β) :
    (c.bind f).trace e = match c.trace e with
      | (steps, .ok a) => (steps ++ ((f a).trace e).1, ((f a).trace e).2)
      | (steps, .error failure) => (steps, .error failure) := by
  induction c with
  | answer | fail => rfl
  | look next ih => exact ih e
  | emit step next ih =>
    rw [bind, trace, ih, trace]
    rcases h : next.trace e with ⟨steps, _ | _⟩ <;> rfl

theorem trace_attempt (e : ε) (c : Stepwise ε σ φ α) :
    (c.attempt : Stepwise ε σ ψ (Except φ α)).trace e = ((c.trace e).1, .ok (c.trace e).2) := by
  induction c with
  | answer | fail => rfl
  | look next ih => exact ih e
  | emit step next ih => rw [attempt, trace, ih, trace]

/-- What the next pull brings: a step and what remains, or the end. -/
def resume (surroundings : ε) : Stepwise ε σ φ α → (σ × Stepwise ε σ φ α) ⊕ Except φ α
  | answer value => .inr (.ok value)
  | fail failure => .inr (.error failure)
  | look next => (next surroundings).resume surroundings
  | emit step next => .inl (step, next)

end Stepwise

/-! ## Steppers -/

/-- A computation that is pulled from outside.  One that failed is `spent`: it has neither answered
nor anything more to do, and the next pull finds that out. -/
inductive Stepper (ε σ φ α : Type) where
  | live (rest : Stepwise ε σ φ α)
  | spent
  | finished (result : Option α)

/-- What a pull brings. -/
inductive Outcome (σ α : Type) where
  | step (step : σ)
  | done (result : Option α)

namespace Stepper

variable {ε σ φ α : Type}

def isDone : Stepper ε σ φ α → Bool
  | finished _ => true
  | _ => false

/-- The answer, once a pull has found the end. -/
def result? : Stepper ε σ φ α → Option α
  | finished result => result
  | _ => none

/-- Pulls once; an error is a failure of the computation. -/
def step (surroundings : ε) : Stepper ε σ φ α → Except φ (Outcome σ α) × Stepper ε σ φ α
  | finished result => (.ok (.done result), finished result)
  | spent => (.ok (.done none), finished none)
  | live rest => match rest.resume surroundings with
    | .inl (step, rest) => (.ok (.step step), live rest)
    | .inr (.ok value) => (.ok (.done (some value)), finished (some value))
    | .inr (.error failure) => (.error failure, spent)

/-- Pulls until the end; the steps, how it ended, and the stepper afterwards. -/
def drain (surroundings : ε) :
    Stepper ε σ φ α → List σ × Except φ (Option α) × Stepper ε σ φ α
  | finished result => ([], .ok result, finished result)
  | spent => ([], .ok none, finished none)
  | live rest => match rest.trace surroundings with
    | (steps, .ok value) => (steps, .ok (some value), finished (some value))
    | (steps, .error failure) => (steps, .error failure, spent)

end Stepper

end Polish
