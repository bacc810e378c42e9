import Polish.Proofs.Compile.Follow
import Polish.Proofs.Evaluate.Expression
import Polish.Proofs.Evaluate.Machine
import Polish.Session

/-!
# Runs that are pulled to their end

A run that is begun and then pulled to its end comes to the same result as when everything is done
at once, and on the way it hands out steps.  What they show can be made out from the moves alone.

* `Session.finish_compile` — for a compilation, with what it attaches to its tokens;
* `Session.finish_evaluate` — for an evaluation.

## How the proof goes

Pulling a stepper to its end is the trace of its computation (`Stepper.drain_attempt`), and the
trace has the end of the eager run.  So what is said of the steps is said of a trace, where it has
been proved for the compiler (`Compile.Job.run_replays`) and for the evaluator
(`Evaluate.Job.run_shows`).  Here it is said once more for a session, with the run that is begun in
it.
-/

set_option autoImplicit false

namespace Polish

open Compile (Replays BreaksOff)

/-- Pulling an attempt to its end hands out all steps, and the result is how the computation
ends. -/
theorem Stepper.drain_attempt {ε σ φ ψ α : Type} (e : ε) (c : Stepwise ε σ φ α) :
    (live (c.attempt : Stepwise ε σ ψ (Except φ α))).drain e
      = ((c.trace e).1, .ok (some (c.eager e)), finished (some (c.eager e))) := by
  rw [drain, Stepwise.trace_attempt, Stepwise.trace_snd]

namespace Session

/-- What is written on the sheets has nothing to do with the runs. -/
theorem settle_runs (s : Session) (runs : Array ActiveRun) (sheet : Nat)
    (result : Except Failure Compile.Compiled) :
    ({ s with runs }.settle sheet result).1 = (s.settle sheet result).1 ∧
      ({ s with runs }.settle sheet result).2.sheets = (s.settle sheet result).2.sheets := by
  cases result <;> exact ⟨rfl, rfl⟩

variable (s : Session) (engine : Nat) (strip : Strip) (m : Mode) (source : Option String)

/-! ## Compilations -/

/-- The compilation of a strip in a notation. -/
def compileJob : Compile.Job := ⟨m, (s.engine engine).limits, source, strip.tokens⟩

/-- A compilation that is done at once. -/
theorem compile_eq : s.compile engine strip m.name source
    = s.settle strip.sheet ((s.compileJob engine strip m source).run.eager
        ((s.engine engine).surroundings (s.sheet strip.sheet))) := by
  rw [compile, Engine.compile_name]
  rfl

/-- A compilation that is begun and pulled to its end. -/
theorem finish_beginCompile :
    ∃ started after, s.beginCompile engine strip m.name source = .ok started ∧
      started.finish s.runs.size
        = ((((s.compileJob engine strip m source).run.trace
              ((s.engine engine).surroundings (s.sheet strip.sheet))).1).map .compile,
            .ok (some (.compiled (s.compile engine strip m.name source).1)), after) ∧
      after.sheets = (s.compile engine strip m.name source).2.sheets := by
  let run := (s.compileJob engine strip m source).run
  let now := (s.engine engine).surroundings (s.sheet strip.sheet)
  let started : Session :=
    { s with runs := s.runs.push (.compilation engine strip.sheet (.live run.attempt)) }
  have hbegin : s.beginCompile engine strip m.name source = .ok started := by
    rw [beginCompile, Engine.compilation_name]
    rfl
  have hrun : started.runs[s.runs.size]?
      = some (.compilation engine strip.sheet (.live run.attempt)) := Array.getElem?_push_size
  have hcompile : s.compile engine strip m.name source
      = s.settle strip.sheet (run.eager now) := s.compile_eq engine strip m source
  let runs := started.runs.setIfInBounds s.runs.size
    (.compilation engine strip.sheet (.finished (some (run.eager now))))
  obtain ⟨hresult, hsheets⟩ := s.settle_runs runs strip.sheet (run.eager now)
  refine ⟨started, ({ s with runs }.settle strip.sheet (run.eager now)).2, hbegin, ?_, ?_⟩
  · rw [finish, hrun]
    dsimp only
    rw [show (started.engine engine).surroundings (started.sheet strip.sheet) = now from rfl,
      Stepper.drain_attempt, hcompile, ← hresult]
    rfl
  · rw [hcompile, ← hsheets]

/-- **A compilation that is pulled to its end does the same as one that is done at once**, and its
steps can be replayed.  It has the same result and leaves the same arguments on the sheets.  Each
step shows what the replay of the moves has come to; if the compilation succeeds, that is the
listing in the end, with an empty stack and the arguments that are attached, and the last step
shows it. -/
theorem finish_compile :
    ∃ started steps after, s.beginCompile engine strip m.name source = .ok started ∧
      started.finish s.runs.size = (steps.map .compile,
        .ok (some (.compiled (s.compile engine strip m.name source).1)), after) ∧
      after.sheets = (s.compile engine strip m.name source).2.sheets ∧
      (∀ listing, (s.compile engine strip m.name source).1 = .ok listing →
        (∃ r, Replays m (s.compileJob engine strip m source).moments .start steps r ∧
          r.listing = listing.strip.tokens ∧ r.stack = [] ∧
          after.sheets = s.sheets.setIfInBounds strip.sheet
            ((s.sheet strip.sheet).attachAll r.attached)) ∧
        (strip.tokens ≠ [] → ∃ last, steps.getLast? = some last ∧
          m.inOrder last.output = listing.strip.tokens ∧ last.operators = [])) ∧
      ∀ failure, (s.compile engine strip m.name source).1 = .error failure →
        BreaksOff m (s.compileJob engine strip m source).moments .start steps := by
  let job := s.compileJob engine strip m source
  let now := (s.engine engine).surroundings (s.sheet strip.sheet)
  obtain ⟨started, after, hbegin, hfinish, hsheets⟩ := s.finish_beginCompile engine strip m source
  refine ⟨started, _, after, hbegin, hfinish, hsheets, ?_, ?_⟩
  · intro listing hlisting
    rw [compile_eq] at hlisting
    cases hresult : job.run.eager now with
    | error failure =>
      rw [hresult] at hlisting
      cases hlisting
    | ok c =>
      rw [hresult] at hlisting
      rw [compile_eq, hresult] at hsheets
      obtain rfl := Except.ok.inj hlisting
      have hend : (job.run.trace now).2 = .ok c := (Stepwise.trace_snd ..).trans hresult
      obtain ⟨r, hreplays, hends⟩ := job.run_replays.1 c hend
      refine ⟨⟨r, hreplays, hends.listing, hends.stack, ?_⟩, job.run_last hend⟩
      rw [hsheets, hends.attached]
      rfl
  · intro failure hfailure
    rw [compile_eq] at hfailure
    cases hresult : job.run.eager now with
    | ok c =>
      rw [hresult] at hfailure
      cases hfailure
    | error other => exact job.run_replays.2 other ((Stepwise.trace_snd ..).trans hresult)

/-! ## Evaluations -/

variable (draws : Evaluate.Draws)

/-- The evaluation of a strip in a notation. -/
def evaluateJob : Evaluate.Job := ⟨m, (s.engine engine).limits, source, draws⟩

/-- An evaluation that is done at once. -/
theorem evaluate_eq : s.evaluate draws engine strip m.name source
    = ((s.evaluateJob engine m source draws).run strip.tokens).eager
        ((s.engine engine).surroundings (s.sheet strip.sheet)) :=
  Engine.evaluateListing_name ..

/-- An evaluation that is begun and pulled to its end. -/
theorem finish_beginEvaluate :
    ∃ after, (s.beginEvaluate draws engine strip m.name source).finish s.runs.size
        = ((((s.evaluateJob engine m source draws).run strip.tokens).trace
              ((s.engine engine).surroundings (s.sheet strip.sheet))).1.map .evaluate,
            .ok (some (.evaluated (s.evaluate draws engine strip m.name source))), after) ∧
      after.sheets = s.sheets := by
  let run := (s.evaluateJob engine m source draws).run strip.tokens
  let now := (s.engine engine).surroundings (s.sheet strip.sheet)
  let started := s.beginEvaluate draws engine strip m.name source
  have hrun : started.runs[s.runs.size]?
      = some (.evaluation engine strip.sheet (.live run.attempt)) := by
    have hruns : started.runs = s.runs.push (.evaluation engine strip.sheet
      (.live ((s.engine engine).evaluation draws strip.tokens m.name source))) := rfl
    rw [hruns, Array.getElem?_push_size, Engine.evaluation, Engine.modeNamed, Mode.ofName?_name]
    rfl
  let runs := started.runs.setIfInBounds s.runs.size
    (.evaluation engine strip.sheet (.finished (some (run.eager now))))
  refine ⟨{ started with runs }, ?_, rfl⟩
  rw [finish, hrun]
  dsimp only
  rw [show (started.engine engine).surroundings (started.sheet strip.sheet) = now from rfl,
    Stepper.drain_attempt, evaluate_eq]
  rfl

/-- **An evaluation that is pulled to its end comes to the same as one that is done at once**, and
its steps are those of a stack machine.  If it succeeds, the last step and no other shows the
result; if it fails, none does. -/
theorem finish_evaluate :
    ∃ steps after, (s.beginEvaluate draws engine strip m.name source).finish s.runs.size
        = (steps.map .evaluate,
            .ok (some (.evaluated (s.evaluate draws engine strip m.name source))), after) ∧
      after.sheets = s.sheets ∧
      (∀ value, s.evaluate draws engine strip m.name source = .ok value → ∃ before,
        steps = before ++
          [⟨.result, none, strip.tokens.length, [value], value, false, none⟩] ∧
        (∀ step ∈ before, step.move ≠ .result) ∧
        (s.evaluateJob engine m source draws).Plays
          ((s.engine engine).surroundings (s.sheet strip.sheet))
          (m.scanOrder strip.tokens.zipIdx) [] before (some [value])) ∧
      ∀ failure, s.evaluate draws engine strip m.name source = .error failure →
        (∀ step ∈ steps, step.move ≠ .result) ∧
        ∃ out, (s.evaluateJob engine m source draws).Plays
          ((s.engine engine).surroundings (s.sheet strip.sheet))
          (m.scanOrder strip.tokens.zipIdx) [] steps out ∧ ∀ value, out ≠ some [value] := by
  obtain ⟨after, hfinish, hsheets⟩ := s.finish_beginEvaluate engine strip m source draws
  have hshows := (s.evaluateJob engine m source draws).run_shows
    ((s.engine engine).surroundings (s.sheet strip.sheet)) strip.tokens
  refine ⟨_, after, hfinish, hsheets, fun value hvalue => ?_, fun failure hfailure => ?_⟩
  · rw [evaluate_eq] at hvalue
    obtain ⟨before, hsteps, hplays⟩ := hshows.of_ok hvalue
    exact ⟨before, hsteps, hplays.noResult, hplays⟩
  · rw [evaluate_eq] at hfailure
    obtain ⟨out, hplays, hout⟩ := hshows.of_error hfailure
    exact ⟨hplays.noResult, out, hplays, hout⟩

end Session

end Polish
