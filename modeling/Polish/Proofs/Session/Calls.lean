import Polish.Proofs.Stepwise
import Polish.Session

/-!
# A stepper that is called again and again

A stepper is asked for its next step, or to run to its end, as often as its owner likes and also
when there is nothing left to do.  Between two calls the surroundings may change.

* `Stepwise.Passes` — a run of a computation up to some point: the steps on the way and what is left
  to do there.  A run has returned if what is left is an answer, and it has raised a failure if what
  is left is that failure.
* `Stepper.answers` — what a sequence of calls brings, one `Reply` for each.
* `Stepper.answers_follow_run` — the replies are those of one run.  They hand out its steps in
  order, each of them once; the call that finds the end brings the result or raises the failure.
  Every call after that reports that the stepper is done, with the result if there is one.

So a run that has returned is reported with its result each time, but one that has failed looks
done to whoever calls once more, and has no result (`Session.done_without_result`).

## How the proof goes

The statement is about two things that go on side by side, the calls and the run.  The induction is
on the calls, and a call that does not find the end goes one step along the run (`answer_live`).
Once the end has been found, no run is left, and the answers repeat (`answers_ended`).
-/

set_option autoImplicit false

namespace Polish

/-! ## Runs -/

namespace Stepwise

variable {ε σ φ α : Type}

/-- A run of a computation comes to where `rest` is left to do, handing out some steps, and whatever
it finds when it looks at its surroundings is of some sort. -/
inductive Passes (sees : ε → Prop) :
    Stepwise ε σ φ α → List σ → Stepwise ε σ φ α → Prop
  | here (c : Stepwise ε σ φ α) : Passes sees c [] c
  | look {next : ε → Stepwise ε σ φ α} {steps : List σ} {rest : Stepwise ε σ φ α} (e : ε)
      (he : sees e) (h : Passes sees (next e) steps rest) : Passes sees (.look next) steps rest
  | emit {step : σ} {next : Stepwise ε σ φ α} {steps : List σ} {rest : Stepwise ε σ φ α}
      (h : Passes sees next steps rest) : Passes sees (.emit step next) (step :: steps) rest

namespace Passes

variable {sees sees' : ε → Prop} {e : ε} {c c' rest : Stepwise ε σ φ α} {steps more : List σ}
  {result : Except φ α}

theorem mono (h : Passes sees c steps rest) (hsees : ∀ e, sees e → sees' e) :
    Passes sees' c steps rest := by
  induction h with
  | here c => exact .here c
  | look e he _ ih => exact .look e (hsees e he) ih
  | emit _ ih => exact .emit ih

/-- A run can be gone on with where it was left. -/
theorem trans (h : Passes sees c steps c') (h' : Passes sees c' more rest) :
    Passes sees c (steps ++ more) rest := by
  induction h with
  | here => exact h'
  | look e he _ ih => exact .look e he (ih h')
  | emit _ ih => exact .emit (ih h')

/-- A pull that brings a step goes on by that step. -/
theorem of_resume {step : σ} (h : c.resume e = .inl (step, rest)) :
    Passes (· = e) c [step] rest := by
  induction c with
  | answer | fail => cases h
  | look next ih => exact .look e rfl (ih e h)
  | emit step' next ih =>
    obtain ⟨rfl, rfl⟩ := Prod.mk.inj (Sum.inl.inj h)
    exact .emit (.here _)

/-- A pull that finds the end goes on to it without a step. -/
theorem of_resume_end (h : c.resume e = .inr result) : Passes (· = e) c [] (.ofExcept result) := by
  induction c with
  | answer | fail =>
    obtain rfl := Sum.inr.inj h
    exact .here _
  | look next ih => exact .look e rfl (ih e h)
  | emit step next ih => cases h

/-- In surroundings that stay as they are, the trace is the one run that comes to an end. -/
theorem iff_trace : Passes (· = e) c steps (.ofExcept result) ↔ c.trace e = (steps, result) := by
  constructor
  · intro h
    generalize hrest : (.ofExcept result : Stepwise ε σ φ α) = rest at h
    induction h with
    | here =>
      subst hrest
      cases result <;> rfl
    | look e' he _ ih =>
      subst he
      exact ih hrest
    | emit _ ih => rw [trace, ih hrest]
  · intro h
    induction c generalizing steps with
    | answer | fail =>
      obtain ⟨rfl, rfl⟩ := Prod.mk.inj h
      exact .here _
    | look next ih => exact .look e rfl (ih e h)
    | emit step next ih =>
      obtain ⟨rfl, hresult⟩ := Prod.mk.inj h
      exact .emit (ih (Prod.ext rfl hresult))

end Passes

end Stepwise

/-! ## Calls -/

namespace Stepper

open Stepwise (Passes)

variable {ε σ φ α : Type}

/-- A call of a stepper, for its next step or for everything that is left. -/
inductive Call where
  | step
  | run

/-- What a call brings: the steps that it hands out and, unless there is more to come, how it ends.
It may raise a failure; otherwise it reports that the stepper is done, with a result or without. -/
structure Reply (σ φ α : Type) where
  steps : List σ
  ending : Option (Except φ (Option α))

/-- Makes a call. -/
def answer (surroundings : ε) (s : Stepper ε σ φ α) :
    Call → Reply σ φ α × Stepper ε σ φ α
  | .step => match s.step surroundings with
    | (.ok (.step step), after) => (⟨[step], none⟩, after)
    | (.ok (.done result), after) => (⟨[], some (.ok result)⟩, after)
    | (.error failure, after) => (⟨[], some (.error failure)⟩, after)
  | .run => match s.drain surroundings with
    | (steps, ending, after) => (⟨steps, some ending⟩, after)

/-- Makes one call after another, each in its own surroundings. -/
def answers (s : Stepper ε σ φ α) : List (Call × ε) → List (Reply σ φ α) × Stepper ε σ φ α
  | [] => ([], s)
  | (call, surroundings) :: calls =>
    let (reply, next) := s.answer surroundings call
    let (replies, after) := next.answers calls
    (reply :: replies, after)

/-- The stepper when a call has found the end of its run. -/
def ended : Except φ α → Stepper ε σ φ α
  | .ok value => finished (some value)
  | .error _ => spent

variable {e : ε} {call : Call} {calls : List (Call × ε)} {c : Stepwise ε σ φ α}
  {result : Except φ α}

theorem answers_cons {s next after : Stepper ε σ φ α} {reply : Reply σ φ α}
    {replies : List (Reply σ φ α)} (h : s.answer e call = (reply, next))
    (h' : next.answers calls = (replies, after)) :
    s.answers ((call, e) :: calls) = (reply :: replies, after) := by
  rw [answers, h]
  dsimp only
  rw [h']

theorem result?_ended : (ended result : Stepper ε σ φ α).result? = result.toOption := by
  cases result <;> rfl

theorem isDone_ended : (ended result : Stepper ε σ φ α).isDone = result.isOk := by
  cases result <;> rfl

/-! ## After the end -/

theorem answer_finished {known : Option α} : (finished known : Stepper ε σ φ α).answer e call
    = (⟨[], some (.ok known)⟩, finished known) := by
  cases call <;> rfl

/-- A stepper whose run has ended is done when it is called again, and has the result that there
is. -/
theorem answer_ended : (ended result : Stepper ε σ φ α).answer e call
    = (⟨[], some (.ok result.toOption)⟩, finished result.toOption) := by
  cases result <;> cases call <;> rfl

theorem answers_finished {known : Option α} : (finished known : Stepper ε σ φ α).answers calls
    = (List.replicate calls.length ⟨[], some (.ok known)⟩, finished known) := by
  induction calls with
  | nil => rfl
  | cons first calls ih => exact answers_cons answer_finished ih

/-- All calls after the end bring the same. -/
theorem answers_ended (result : Except φ α) (calls : List (Call × ε)) :
    ∃ after, (ended result : Stepper ε σ φ α).answers calls
      = (List.replicate calls.length ⟨[], some (.ok result.toOption)⟩, after) ∧
    after.result? = result.toOption ∧ after.isDone = (result.isOk || !calls.isEmpty) := by
  cases calls with
  | nil => exact ⟨ended result, rfl, result?_ended, by simp [isDone_ended]⟩
  | cons first calls =>
    exact ⟨finished result.toOption, answers_cons answer_ended answers_finished, rfl,
      by simp [isDone]⟩

/-! ## Up to the end -/

/-- **What a call does while the run goes on**: it brings the next step, or it finds the end and
brings the result or raises the failure. -/
theorem answer_live (c : Stepwise ε σ φ α) (e : ε) (call : Call) :
    (∃ step rest, c.Passes (· = e) [step] rest ∧
        (live c).answer e call = (⟨[step], none⟩, live rest)) ∨
      ∃ steps result, c.Passes (· = e) steps (.ofExcept result) ∧
        (live c).answer e call = (⟨steps, some (result.map some)⟩, ended result) := by
  cases call with
  | run =>
    obtain ⟨⟨steps, result⟩, htrace⟩ : ∃ found, c.trace e = found := ⟨_, rfl⟩
    refine .inr ⟨steps, result, Passes.iff_trace.2 htrace, ?_⟩
    rw [answer, drain, htrace]
    cases result <;> rfl
  | step =>
    cases hresume : c.resume e with
    | inl found =>
      obtain ⟨step, rest⟩ := found
      refine .inl ⟨step, rest, .of_resume hresume, ?_⟩
      rw [answer, step_of_resume hresume]
    | inr result =>
      refine .inr ⟨[], result, .of_resume_end hresume, ?_⟩
      rw [answer, Stepper.step, hresume]
      cases result <;> rfl

/-- **The replies to all calls are those of one run** of the computation, whose looks find the
surroundings of the calls.  Either it goes on, and each call has brought one step of it.  Or it has
ended: first each call has brought one step, then one has brought what steps there were left, with
the result or the failure, and every call after it has reported that the stepper is done, with the
result if the run has returned and without any if it has failed. -/
theorem answers_follow_run (c : Stepwise ε σ φ α) (calls : List (Call × ε)) :
    (∃ steps rest, c.Passes (· ∈ calls.map Prod.snd) steps rest ∧
        (live c).answers calls = (steps.map fun step => ⟨[step], none⟩, live rest)) ∨
      ∃ steps left result further after,
        c.Passes (· ∈ calls.map Prod.snd) (steps ++ left) (.ofExcept result) ∧
        (live c).answers calls = ((steps.map fun step => ⟨[step], none⟩) ++
          ⟨left, some (result.map some)⟩ ::
            List.replicate further ⟨[], some (.ok result.toOption)⟩, after) ∧
        after.result? = result.toOption ∧ after.isDone = (result.isOk || further != 0) := by
  induction calls generalizing c with
  | nil => exact .inl ⟨[], c, .here c, rfl⟩
  | cons first calls ih =>
    obtain ⟨call, e⟩ := first
    have hfirst : ∀ e', e' = e → e' ∈ ((call, e) :: calls).map Prod.snd := by
      rintro _ rfl
      exact List.mem_cons_self
    have hothers : ∀ e' ∈ calls.map Prod.snd, e' ∈ ((call, e) :: calls).map Prod.snd :=
      fun e' he' => List.mem_cons_of_mem _ he'
    obtain ⟨step, rest, hpasses, hanswer⟩ | ⟨left, result, hpasses, hanswer⟩ :=
      answer_live c e call
    · -- The other calls are answered by what is left of the run.
      have hstep := hpasses.mono hfirst
      obtain ⟨steps, rest', hrest, hanswers⟩ |
        ⟨steps, left, result, further, after, hrest, hanswers, hafter⟩ := ih rest
      · exact .inl ⟨step :: steps, rest', hstep.trans (hrest.mono hothers),
          answers_cons hanswer hanswers⟩
      · exact .inr ⟨step :: steps, left, result, further, after,
          hstep.trans (hrest.mono hothers), answers_cons hanswer hanswers, hafter⟩
    · obtain ⟨after, hanswers, hresult, hdone⟩ := answers_ended result calls
      refine .inr ⟨[], left, result, calls.length, after, hpasses.mono hfirst,
        answers_cons hanswer hanswers, hresult, ?_⟩
      rw [hdone]
      cases calls <;> rfl

end Stepper

/-! ## A failure that looks like an end -/

namespace Session

/-- An evaluation in a notation that does not exist is refused at the first pull.  The second pull
reports that it is done, and from then on it counts as ended, without a result. -/
theorem done_without_result :
    let s := (start .standard).beginEvaluate (fun _ _ => 0) 0
      ⟨0, [⟨.number, "1", 0, 0⟩, ⟨.number, "2", 2, 2⟩, ⟨.operator, "+", 1, 1⟩]⟩ "xx" none
    ∃ t u, s.pull 0 = (.error (.mode "xx"), t) ∧ t.status 0 = (false, none) ∧
      t.pull 0 = (.ok (.done none), u) ∧ u.status 0 = (true, none) :=
  ⟨_, _, rfl, rfl, rfl, rfl⟩

end Session

end Polish
