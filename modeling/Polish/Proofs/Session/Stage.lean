import Polish.Proofs.Compile.Expression
import Polish.Proofs.Compile.Steady

/-!
# A compilation that is pulled step by step

A compilation looks at its sheet when it begins and at the registries from then on, so with
unchanging registries it ends as it would have ended if it had been run at once when it began,
whatever has been attached to its tokens in the meantime.

The `Stage` of a stepper is how far it has come.  `Stage.step` says what a pull does to it, and that
no compilation begins on tokens that are not `Fresh`.

## How the proof goes

A compilation asks its surroundings for more than one thing, but for its sheet it asks in its first
step only (`Compile.Job.run_steady`).  After that it depends on the registries alone, in the sense
of `Stepwise.DependsOn`, and each pull can be made in the surroundings of the first one just as
well.
-/

set_option autoImplicit false

namespace Polish

open Compile (Job Compiled)

/-! ## Fresh tokens -/

/-- No call among the tokens has arguments on the sheet. -/
def Fresh (sheet : Sheet) (tokens : List Token) : Prop :=
  ∀ t ∈ tokens, t.kind = .call → sheet.args? t.handle = none

/-- What is attached once leaves no token fresh that had arguments before. -/
theorem Fresh.of_attachAll {sheet : Sheet} {tokens : List Token}
    {entries : List (Nat × List (List Token))} (h : Fresh (sheet.attachAll entries) tokens) :
    Fresh sheet tokens := by
  intro t ht hk
  have hnone := h t ht hk
  rw [← Option.not_isSome_iff_eq_none] at hnone ⊢
  exact fun hsome => hnone (Sheet.isSome_args?_attachAll.2 (.inr hsome))

/-- After a compilation its tokens are not fresh any more, if there is a call among them. -/
theorem Compile.Job.not_fresh {job : Job} {now : Surroundings} {c : Compiled}
    (h : job.run.eager now = .ok c) (hcall : ∃ t ∈ job.tokens, t.kind = .call) (sheet : Sheet) :
    ¬ Fresh (sheet.attachAll c.attached) job.tokens := by
  obtain ⟨t, ht, hk⟩ := hcall
  intro hfresh
  have hmem : t.handle ∈ c.attached.map Prod.fst :=
    (Job.attached_calls h).mem_iff.2 (List.mem_map_of_mem (List.mem_filter.2 ⟨ht, by simpa⟩))
  have hsome : ((sheet.attachAll c.attached).args? t.handle).isSome :=
    Sheet.isSome_args?_attachAll.2 (.inl hmem)
  rw [hfresh t ht hk] at hsome
  cases hsome

/-! ## Stages of a compilation -/

/-- A stepper of a compilation. -/
abbrev CompileStepper :=
  Stepper Surroundings Compile.Step Failure (Except Failure Compiled)

/-- How far a compilation of the tokens has come that is pulled step by step, with unchanging
registries.  It can be under way only if it is `busy`. -/
inductive Stage (registries : Registries) (tokens : List Token) (busy : Prop) :
    CompileStepper → Prop where
  /-- It has not been pulled. -/
  | waiting (job : Job) (htokens : job.tokens = tokens) :
    Stage registries tokens busy (.live job.run.attempt)
  /-- It has looked at its sheet and will end as it would have ended at that time. -/
  | underWay (hbusy : busy) (job : Job) (htokens : job.tokens = tokens) (start : Surroundings)
    (hstart : start.registries = registries)
    (rest : Stepwise Surroundings Compile.Step Failure (Except Failure Compiled))
    (hsteady : rest.DependsOn Surroundings.registries)
    (hend : rest.eager start = .ok (job.run.eager start)) :
    Stage registries tokens busy (.live rest)
  | ended (result : Option (Except Failure Compiled)) :
    Stage registries tokens busy (.finished result)

/-- A listing has come of a compilation of the tokens, whatever was on the sheet. -/
def Comes (registries : Registries) (tokens : List Token) (c : Compiled) : Prop :=
  ∃ (job : Job) (start : Surroundings), job.tokens = tokens ∧ start.registries = registries ∧
    job.run.eager start = .ok c

namespace Stage

variable {registries : Registries} {tokens : List Token} {busy busy' : Prop}
  {stepper : CompileStepper}

theorem mono (h : Stage registries tokens busy stepper)
    (hbusy : busy → stepper.isDone = false → busy') : Stage registries tokens busy' stepper := by
  cases h with
  | waiting job htokens => exact .waiting job htokens
  | underWay hb job htokens start hstart rest hsteady hend =>
    exact .underWay (hbusy hb rfl) job htokens start hstart rest hsteady hend
  | ended result => exact .ended result

end Stage

/-- A compilation whose tokens are not fresh is over with its first look. -/
theorem Compile.Job.resume_of_not_fresh {job : Job} {now : Surroundings}
    (h : ¬ Fresh now.sheet job.tokens) :
    ∃ error, error.defect = .alreadyCompiled ∧
      (job.run.attempt : Stepwise Surroundings Compile.Step Failure _).resume now
        = .inr (.ok (.error (.compile error))) := by
  cases hfirst : job.firstCompiled? now.sheet with
  | some place =>
    refine ⟨⟨.alreadyCompiled, place.index, place.token, job.source⟩, rfl, ?_⟩
    simp [Job.run, Job.checkFresh, Stepwise.bind_eq, Stepwise.bind, Stepwise.attempt,
      Stepwise.resume, hfirst, Job.stopAt, Job.stop]
  | none =>
    have hok : job.checkFresh.eager now = .ok () := by simp [Job.checkFresh, hfirst]
    exact absurd (Compile.checkFresh_ok.1 hok) h

/-- **What a pull does to a compilation**: it goes on to the next stage, and no compilation begins
on tokens that are not fresh.  A result is that of a compilation of the tokens. -/
theorem Stage.step {registries : Registries} {tokens : List Token} {busy : Prop}
    {stepper : CompileStepper} {now : Surroundings} (hnow : now.registries = registries)
    (h : Stage registries tokens busy stepper) :
    ∃ outcome stepper', stepper.step now = (.ok outcome, stepper') ∧
      Stage registries tokens (busy ∨ Fresh now.sheet tokens) stepper' ∧
      ∀ result, outcome = .done result → stepper' = .finished result ∧
        ∀ c, stepper.isDone = false → result = some (.ok c) →
          (busy ∨ Fresh now.sheet tokens) ∧ Comes registries tokens c := by
  cases h with
  | ended result =>
    exact ⟨_, _, rfl, .ended result, fun _ h => ⟨by cases h; rfl, fun c hdone => by cases hdone⟩⟩
  | waiting job htokens =>
    subst htokens
    obtain ⟨next, hrun, hsteady⟩ := job.run_steady
    have hends := Stepwise.eager_of_resume (e := now)
      (c := (job.run.attempt : Stepwise Surroundings Compile.Step Failure _))
    rw [Stepwise.eager_attempt] at hends
    cases hresume : (job.run.attempt : Stepwise Surroundings Compile.Step Failure _).resume now with
    | inl found =>
      obtain ⟨step, rest⟩ := found
      -- Had the tokens not been fresh, the first pull would have been the last.
      have hfresh : Fresh now.sheet job.tokens := by
        refine Classical.byContradiction fun hnot => ?_
        obtain ⟨error, -, herror⟩ := Job.resume_of_not_fresh hnot
        rw [herror] at hresume
        cases hresume
      have hrest : rest.DependsOn Surroundings.registries := by
        rw [hrun] at hresume
        exact (hsteady now).attempt.rest (e := now) hresume
      refine ⟨.step step, .live rest, Stepper.step_of_resume hresume, ?_, fun _ h => by cases h⟩
      exact .underWay (.inr hfresh) job rfl now hnow rest hrest (hends.1 step rest hresume)
    | inr result =>
      obtain rfl := hends.2 result hresume
      refine ⟨_, _, Stepper.done_of_resume hresume, .ended _, fun result h => ?_⟩
      obtain rfl := Outcome.done.inj h
      refine ⟨rfl, fun c _ hc => ?_⟩
      have hok := Option.some.inj hc
      exact ⟨.inr (Job.run_ok_iff.1 hok).1, job, now, rfl, hnow, hok⟩
  | underWay hbusy job htokens start hstart rest hsteady hend =>
    have hends := Stepwise.eager_of_resume (e := now) (c := rest)
    -- The sheet may have changed since the start, but nothing that is left looks at it.
    rw [hsteady.eager_eq (hnow.trans hstart.symm), hend] at hends
    cases hresume : rest.resume now with
    | inl found =>
      obtain ⟨step, rest'⟩ := found
      refine ⟨_, _, Stepper.step_of_resume hresume, ?_, fun _ h => by cases h⟩
      have hrest := hsteady.rest hresume
      exact .underWay (.inl hbusy) job htokens start hstart rest' hrest
        ((hrest.eager_eq (hstart.trans hnow.symm)).trans (hends.1 step rest' hresume))
    | inr result =>
      obtain rfl := hends.2 result hresume
      refine ⟨_, _, Stepper.done_of_resume hresume, .ended _, fun result h => ?_⟩
      obtain rfl := Outcome.done.inj h
      exact ⟨rfl, fun c _ hc => ⟨.inl hbusy, job, start, htokens, hstart, Option.some.inj hc⟩⟩

end Polish
