import Polish.Proofs.Session.Interleaving
import Polish.Proofs.Session.Steps

/-!
# Attempts to compile

An `Attempt` is a compilation that is done at once or one that is begun and pulled some number of
times, perhaps not to its end.  It writes on its sheet only if it succeeds, and then all at once.
What is written stays: nothing that is done to a session later takes arguments away from a token, so
no later attempt on such a token is successful.

* `UnderWay` and `Ended` — the two states of a compilation that is pulled;
* `Grows` — no token loses its arguments; `perform_grows` says so of every `Request`;
* `Session.attempt_refused` — what comes of an attempt on a token that has arguments;
* `Session.attempt_writes` — what an attempt writes and what comes afterwards.

## How the proof goes

What is attached stays for a simple reason: a sheet is only ever written by adding entries to it, in
`Session.settle`, and a token with an entry has one afterwards.  So each request either leaves the
sheets alone or settles a result (`pull_sheets`, `finish_sheets`).

For an attempt in parts there are only two kinds of sessions to be met on the way, those in which
the compilation is under way and those in which it has ended.  The surroundings do not change while
it is pulled, so it ends as it would have ended at once.
-/

set_option autoImplicit false

namespace Polish

open Compile (Job Compiled)

/-- A way to compile: at once, or step by step with a number of pulls. -/
inductive Attempt where
  | atOnce
  | stepwise (pulls : Nat)
deriving DecidableEq

/-- Something that may change a session. -/
inductive Request where
  | addEngine (engine : Engine)
  | changeEngine (id : Nat) (change : Engine → Engine)
  | addStrip (sheet : Sheet) (tokens : List Token)
  | compile (engine : Nat) (strip : Strip) (mode : String) (source : Option String)
  | beginCompile (engine : Nat) (strip : Strip) (mode : String) (source : Option String)
  | beginEvaluate (draws : Evaluate.Draws) (engine : Nat) (strip : Strip) (mode : String)
    (source : Option String)
  | pull (run : Nat)
  | finish (run : Nat)

namespace Session

/-! ## What is done -/

/-- The session after a run has been pulled a number of times. -/
def pullTimes (s : Session) (id : Nat) : Nat → Session
  | 0 => s
  | pulls + 1 => (s.pull id).2.pullTimes id pulls

/-- What has come of a compilation that is pulled, if it has ended. -/
def outcome? (s : Session) (id : Nat) : Option (Except Failure Listing) :=
  match (s.status id).2 with
  | some (.compiled result) => some result
  | _ => none

/-- Compiles a strip; there is no result if the compilation has not been pulled to its end. -/
def attempt (s : Session) (engine : Nat) (strip : Strip) (mode : String)
    (source : Option String) : Attempt → Option (Except Failure Listing) × Session
  | .atOnce =>
    let (result, after) := s.compile engine strip mode source
    (some result, after)
  | .stepwise pulls =>
    match s.beginCompile engine strip mode source with
    | .error failure => (some (.error failure), s)
    | .ok started =>
      let after := started.pullTimes s.runs.size pulls
      (after.outcome? s.runs.size, after)

/-- The session after a request. -/
def perform (s : Session) : Request → Session
  | .addEngine engine => s.addEngine engine
  | .changeEngine id change => s.changeEngine id change
  | .addStrip sheet tokens => (s.addStrip sheet tokens).2
  | .compile engine strip mode source => (s.compile engine strip mode source).2
  | .beginCompile engine strip mode source =>
    (s.beginCompile engine strip mode source).toOption.getD s
  | .beginEvaluate draws engine strip mode source => s.beginEvaluate draws engine strip mode source
  | .pull run => (s.pull run).2
  | .finish run => (s.finish run).2.2

/-- The session after several requests. -/
def performAll (s : Session) (requests : List Request) : Session := requests.foldl perform s

/-! ## What stays -/

/-- No token loses the arguments that it has. -/
def Grows (s s' : Session) : Prop :=
  ∀ id handle, ((s.sheet id).args? handle).isSome → ((s'.sheet id).args? handle).isSome

namespace Grows

variable {s s' s'' : Session}

theorem of_sheets (h : s'.sheets = s.sheets) : Grows s s' := by
  intro id handle hsome
  rwa [sheet, h]

theorem refl (s : Session) : Grows s s := of_sheets rfl

theorem trans (h : Grows s s') (h' : Grows s' s'') : Grows s s'' :=
  fun id handle hsome => h' id handle (h id handle hsome)

end Grows

theorem sheet_setIfInBounds (s : Session) (id other : Nat) (sheet : Sheet) :
    ({ s with sheets := s.sheets.setIfInBounds id sheet } : Session).sheet other
      = if id = other ∧ id < s.sheets.size then sheet else s.sheet other := by
  simp only [Session.sheet, Array.getD_eq_getD_getElem?, Array.getElem?_setIfInBounds]
  by_cases h : id = other
  · subst h
    by_cases hlt : id < s.sheets.size <;> simp [hlt]
  · simp [h]

/-- What is written depends on no more than what is on the sheets. -/
theorem settle_sheets {s t : Session} (h : t.sheets = s.sheets) (id : Nat)
    (result : Except Failure Compiled) :
    (t.settle id result).2.sheets = (s.settle id result).2.sheets := by
  cases result with
  | error failure => exact h
  | ok c => simp only [settle, Session.sheet, h]

theorem settle_grows (s : Session) (id : Nat) (result : Except Failure Compiled) :
    Grows s (s.settle id result).2 := by
  cases result with
  | error failure => exact .refl s
  | ok c =>
    intro other handle hsome
    rw [settle]
    dsimp only
    rw [sheet_setIfInBounds]
    split
    · next heq =>
      rw [heq.1]
      exact Sheet.isSome_args?_attachAll.2 (.inr hsome)
    · exact hsome

/-- Pulling a run writes what a compilation has come to, or nothing. -/
theorem pull_sheets (s : Session) (run : Nat) : (s.pull run).2.sheets = s.sheets ∨
    ∃ id result, (s.pull run).2.sheets = (s.settle id result).2.sheets := by
  rw [pull]
  split
  · exact .inl rfl
  · next engine id stepper _ =>
    dsimp only
    split
    · exact .inl rfl
    · exact .inl rfl
    · exact .inl rfl
    · next result _ =>
      split
      · exact .inl rfl
      · exact .inr ⟨id, result, (s.settle_runs _ id result).2⟩
  · dsimp only
    split <;> exact .inl rfl

theorem finish_sheets (s : Session) (run : Nat) : (s.finish run).2.2.sheets = s.sheets ∨
    ∃ id result, (s.finish run).2.2.sheets = (s.settle id result).2.sheets := by
  rw [finish]
  split
  · exact .inl rfl
  · next engine id stepper _ =>
    dsimp only
    split
    · exact .inl rfl
    · exact .inl rfl
    · next result _ =>
      split
      · exact .inl rfl
      · exact .inr ⟨id, result, (s.settle_runs _ id result).2⟩
  · exact .inl rfl

/-- **No request takes arguments away.** -/
theorem perform_grows (s : Session) (request : Request) : Grows s (s.perform request) := by
  have of_settle {s' : Session} (h : s'.sheets = s.sheets ∨
      ∃ id result, s'.sheets = (s.settle id result).2.sheets) : Grows s s' := by
    rcases h with h | ⟨id, result, h⟩
    · exact .of_sheets h
    · exact (s.settle_grows id result).trans (.of_sheets h)
  cases request with
  | addEngine | changeEngine | beginEvaluate => exact .of_sheets rfl
  | addStrip sheet tokens =>
    intro id handle hsome
    -- The number of the new sheet had no sheet before, and so no arguments on it.
    have hid : id < s.sheets.size := by
      refine Classical.byContradiction fun hge => ?_
      have hnone : s.sheets[id]? = none := Array.getElem?_eq_none (Nat.not_lt.1 hge)
      simp [Session.sheet, Array.getD_eq_getD_getElem?, hnone] at hsome
    have hsame : (s.perform (.addStrip sheet tokens)).sheet id = s.sheet id := by
      simp [Session.sheet, perform, addStrip, Array.getD_eq_getD_getElem?, Array.getElem?_push_lt,
        hid]
    rwa [hsame]
  | compile engine strip mode source => exact s.settle_grows _ _
  | beginCompile engine strip mode source =>
    rw [perform, beginCompile]
    cases (s.engine engine).compilation strip.tokens mode source <;> exact .of_sheets rfl
  | pull run => exact of_settle (s.pull_sheets run)
  | finish run => exact of_settle (s.finish_sheets run)

theorem performAll_grows (s : Session) (requests : List Request) :
    Grows s (s.performAll requests) := by
  induction requests generalizing s with
  | nil => exact .refl s
  | cons request rest ih => exact (s.perform_grows request).trans (ih _)

/-! ## Compilations that are pulled -/

section

variable {s t : Session} {engine : Nat} {strip : Strip} {job : Job}

/-- A computation in progress, that will end as the compilation would have ended if it had been run
at once. -/
abbrev Rest := Stepwise Surroundings Compile.Step Failure (Except Failure Compiled)

/-- What comes of a compilation in a session as it is. -/
def resultOf (s : Session) (engine : Nat) (strip : Strip) (job : Job) : Except Failure Compiled :=
  job.run.eager ((s.engine engine).surroundings (s.sheet strip.sheet))

/-- The compilation that was begun in a session has been pulled, and nothing has been written. -/
structure UnderWay (s : Session) (engine : Nat) (strip : Strip) (job : Job) (rest : Rest)
    (t : Session) : Prop where
  run : t.runs[s.runs.size]? = some (.compilation engine strip.sheet (.live rest))
  result : rest.eager ((s.engine engine).surroundings (s.sheet strip.sheet))
    = .ok (s.resultOf engine strip job)
  engines : t.engines = s.engines
  sheets : t.sheets = s.sheets

/-- The compilation that was begun in a session has ended, and its result has been written. -/
structure Ended (s : Session) (engine : Nat) (strip : Strip) (job : Job) (t : Session) : Prop where
  run : t.runs[s.runs.size]? = some (.compilation engine strip.sheet
    (.finished (some (s.resultOf engine strip job))))
  sheets : t.sheets = (s.settle strip.sheet (s.resultOf engine strip job)).2.sheets

namespace Ended

/-- What has ended stays as it is. -/
theorem pull (h : Ended s engine strip job t) :
    Ended s engine strip job (t.pull s.runs.size).2 := by
  have hbound := (Array.getElem?_eq_some_iff.1 h.run).1
  rw [Session.pull, h.run]
  exact ⟨by simp [hbound, Stepper.step, Stepper.isDone], h.sheets⟩

theorem pullTimes (h : Ended s engine strip job t) (pulls : Nat) :
    Ended s engine strip job (t.pullTimes s.runs.size pulls) := by
  induction pulls generalizing t with
  | zero => exact h
  | succ pulls ih => exact ih h.pull

theorem outcome? (h : Ended s engine strip job t) : t.outcome? s.runs.size
    = some (listingOf strip.sheet (s.resultOf engine strip job)) := by
  rw [Session.outcome?, status, h.run]
  rfl

end Ended

namespace UnderWay

variable {rest : Rest}

theorem surroundings (h : UnderWay s engine strip job rest t) :
    (t.engine engine).surroundings (t.sheet strip.sheet)
      = (s.engine engine).surroundings (s.sheet strip.sheet) := by
  rw [Session.engine, Session.sheet, h.engines, h.sheets]
  rfl

/-- A pull that finds a step goes on. -/
theorem pull_step (h : UnderWay s engine strip job rest t) {step : Compile.Step} {rest' : Rest}
    (hresume : rest.resume ((s.engine engine).surroundings (s.sheet strip.sheet))
      = .inl (step, rest')) :
    UnderWay s engine strip job rest' (t.pull s.runs.size).2 := by
  have hbound := (Array.getElem?_eq_some_iff.1 h.run).1
  have hresult := Stepwise.eager_of_resume.1 step rest' hresume
  rw [Session.pull, h.run]
  simp only [h.surroundings, Stepper.step_of_resume hresume]
  exact ⟨by simp [hbound], hresult.trans h.result, h.engines, h.sheets⟩

/-- A pull that finds no step has come to the end and writes what there is to write. -/
theorem pull_end (h : UnderWay s engine strip job rest t)
    {result : Except Failure (Except Failure Compiled)}
    (hresume : rest.resume ((s.engine engine).surroundings (s.sheet strip.sheet)) = .inr result) :
    Ended s engine strip job (t.pull s.runs.size).2 := by
  have hbound := (Array.getElem?_eq_some_iff.1 h.run).1
  obtain rfl := (Stepwise.eager_of_resume.2 result hresume).symm.trans h.result
  rw [Session.pull, h.run]
  simp only [h.surroundings, Stepper.done_of_resume hresume]
  refine ⟨?_, ?_⟩
  · cases hresult : s.resultOf engine strip job <;>
      simp [Stepper.isDone, settle, hbound]
  · exact (t.settle_runs _ strip.sheet _).2.trans (settle_sheets h.sheets _ _)

/-- However often it is pulled, a compilation is under way or has ended. -/
theorem pullTimes (h : UnderWay s engine strip job rest t) (pulls : Nat) :
    (∃ rest', UnderWay s engine strip job rest' (t.pullTimes s.runs.size pulls)) ∨
      Ended s engine strip job (t.pullTimes s.runs.size pulls) := by
  induction pulls generalizing t rest with
  | zero => exact .inl ⟨rest, h⟩
  | succ pulls ih =>
    cases hresume : rest.resume ((s.engine engine).surroundings (s.sheet strip.sheet)) with
    | inl found => exact ih (h.pull_step hresume)
    | inr result => exact .inr ((h.pull_end hresume).pullTimes pulls)

theorem outcome? (h : UnderWay s engine strip job rest t) : t.outcome? s.runs.size = none := by
  rw [Session.outcome?, status, h.run]
  rfl

end UnderWay

end

/-! ## Attempts -/

section

variable {s : Session} {engine : Nat} {strip : Strip} {mode : String} {source : Option String}

theorem beginCompile_underWay {job : Job}
    (h : (s.engine engine).compilation strip.tokens mode source = .ok job.run) :
    ∃ started, s.beginCompile engine strip mode source = .ok started ∧
      UnderWay s engine strip job job.run.attempt started := by
  refine ⟨{ s with runs := s.runs.push (.compilation engine strip.sheet
    (.live job.run.attempt)) }, ?_, ?_, ?_, rfl, rfl⟩
  · rw [beginCompile, h]
    rfl
  · exact Array.getElem?_push_size
  · exact Stepwise.eager_attempt _

theorem compile_eq_settle {job : Job}
    (h : (s.engine engine).compilation strip.tokens mode source = .ok job.run) :
    s.compile engine strip mode source = s.settle strip.sheet (s.resultOf engine strip job) := by
  rw [compile, Engine.compile, h]
  rfl

theorem settle_fst (s : Session) (id : Nat) (result : Except Failure Compiled) :
    (s.settle id result).1 = listingOf id result := by
  cases result <;> rfl

/-- An attempt that cannot begin leaves everything as it is. -/
theorem attempt_of_failure {failure : Failure}
    (h : (s.engine engine).compilation strip.tokens mode source = .error failure) (how : Attempt) :
    s.attempt engine strip mode source how = (some (.error failure), s) := by
  cases how with
  | atOnce =>
    rw [attempt, compile, Engine.compile, h]
    rfl
  | stepwise pulls =>
    rw [attempt, beginCompile, h]
    rfl

/-- An attempt has not come to its end and has written nothing, or its result is that of the
compilation and has been written. -/
theorem attempt_of_job {job : Job}
    (h : (s.engine engine).compilation strip.tokens mode source = .ok job.run) (how : Attempt) :
    ((s.attempt engine strip mode source how).1 = none ∧
      (s.attempt engine strip mode source how).2.sheets = s.sheets) ∨
    ((s.attempt engine strip mode source how).1
        = some (listingOf strip.sheet (s.resultOf engine strip job)) ∧
      (s.attempt engine strip mode source how).2.sheets
        = (s.settle strip.sheet (s.resultOf engine strip job)).2.sheets) := by
  cases how with
  | atOnce =>
    refine .inr ?_
    rw [attempt, compile_eq_settle h, ← settle_fst s]
    exact ⟨rfl, rfl⟩
  | stepwise pulls =>
    obtain ⟨started, hstarted, hunderWay⟩ := beginCompile_underWay h
    rw [attempt, hstarted]
    rcases hunderWay.pullTimes pulls with ⟨rest, hrest⟩ | hended
    · exact .inl ⟨hrest.outcome?, hrest.sheets⟩
    · exact .inr ⟨hended.outcome?, hended.sheets⟩

/-- **What an attempt does to the sheets**: it writes what it has compiled if it succeeds, and
otherwise nothing. -/
theorem attempt_cases (s : Session) (engine : Nat) (strip : Strip) (mode : String)
    (source : Option String) (how : Attempt) :
    ((∀ listing, (s.attempt engine strip mode source how).1 ≠ some (.ok listing)) ∧
      (s.attempt engine strip mode source how).2.sheets = s.sheets) ∨
    ∃ job c, job.tokens = strip.tokens ∧ s.resultOf engine strip job = .ok c ∧
      (s.attempt engine strip mode source how).1
        = some (.ok ⟨⟨strip.sheet, c.listing⟩, c.evaluable⟩) ∧
      (s.attempt engine strip mode source how).2.sheets
        = (s.settle strip.sheet (.ok c)).2.sheets := by
  rcases (s.engine engine).compilation_cases strip.tokens mode source with
    ⟨failure, hfailure⟩ | ⟨job, htokens, hjob⟩
  · rw [attempt_of_failure hfailure how]
    refine .inl ⟨fun listing hlisting => ?_, rfl⟩
    cases hlisting
  · rcases attempt_of_job hjob how with ⟨hnone, hsheets⟩ | ⟨hresult, hsheets⟩
    · exact .inl ⟨fun listing h => by simp [hnone] at h, hsheets⟩
    · cases hc : s.resultOf engine strip job with
      | error failure =>
        rw [hc] at hresult hsheets
        exact .inl ⟨fun listing h => by simp [hresult, listingOf, Except.map] at h, hsheets⟩
      | ok c =>
        rw [hc] at hresult hsheets
        exact .inr ⟨job, c, htokens, hc, hresult, hsheets⟩

/-- **A token that has arguments is refused** with the first look at the sheet, and nothing is
written; a compilation that is never pulled does not even look. -/
theorem attempt_refused (m : Mode) (source : Option String)
    (hused : ∃ t ∈ strip.tokens, t.kind = .call ∧
      ((s.sheet strip.sheet).args? t.handle).isSome) {how : Attempt} (hhow : how ≠ .stepwise 0) :
    ∃ error, error.defect = .alreadyCompiled ∧
      (s.attempt engine strip m.name source how).1 = some (.error (.compile error)) ∧
      (s.attempt engine strip m.name source how).2.sheets = s.sheets := by
  let now := (s.engine engine).surroundings (s.sheet strip.sheet)
  have hjob : (s.engine engine).compilation strip.tokens m.name source
      = .ok (s.compileJob engine strip m source).run := Engine.compilation_name ..
  have hstale : ¬ Fresh now.sheet (s.compileJob engine strip m source).tokens := by
    intro hfresh
    obtain ⟨t, ht, hk, hsome⟩ := hused
    rw [show (s.sheet strip.sheet).args? t.handle = none from hfresh t ht hk] at hsome
    cases hsome
  obtain ⟨error, hdefect, hresume⟩ := Job.resume_of_not_fresh hstale
  have hresult : s.resultOf engine strip (s.compileJob engine strip m source)
      = .error (.compile error) := by
    have hend := Stepwise.eager_of_resume.2 _ hresume
    rw [Stepwise.eager_attempt] at hend
    exact Except.ok.inj hend
  refine ⟨error, hdefect, ?_⟩
  cases how with
  | atOnce =>
    rw [attempt, compile_eq_settle hjob, hresult]
    exact ⟨rfl, rfl⟩
  | stepwise pulls =>
    obtain ⟨started, hstarted, hunderWay⟩ := beginCompile_underWay hjob
    -- The first pull finds the end, and the others do not change anything.
    have hpulls : pulls ≠ 0 := fun hzero => hhow (by rw [hzero])
    obtain ⟨pulls, rfl⟩ := Nat.exists_eq_succ_of_ne_zero hpulls
    have hended := (hunderWay.pull_end hresume).pullTimes pulls
    have houtcome := hended.outcome?
    have hsheets := hended.sheets
    rw [hresult] at houtcome hsheets
    rw [attempt, hstarted]
    exact ⟨houtcome, hsheets⟩

/-- What a success writes: arguments for each call of the strip, and nothing else. -/
structure Fills (s : Session) (strip : Strip) (after : Session) : Prop where
  calls : ∀ t ∈ strip.tokens, t.kind = .call →
    ((after.sheet strip.sheet).args? t.handle).isSome
  others : ∀ handle, (∀ t ∈ strip.tokens, t.kind = .call → t.handle ≠ handle) →
    (after.sheet strip.sheet).args? handle = (s.sheet strip.sheet).args? handle
  sheets : ∀ id, id ≠ strip.sheet → after.sheet id = s.sheet id

/-- A compilation that has succeeded has arguments for the calls, at any depth of nesting. -/
theorem settle_fills (hsheet : strip.sheet < s.sheets.size) {job : Job} {c : Compiled}
    (htokens : job.tokens = strip.tokens) (hresult : s.resultOf engine strip job = .ok c)
    {after : Session} (hafter : after.sheets = (s.settle strip.sheet (.ok c)).2.sheets) :
    s.Fills strip after := by
  have hread (id : Nat) : after.sheet id = if strip.sheet = id ∧ strip.sheet < s.sheets.size then
      (s.sheet strip.sheet).attachAll c.attached else s.sheet id := by
    rw [← sheet_setIfInBounds, Session.sheet, hafter]
    rfl
  have hwritten : after.sheet strip.sheet = (s.sheet strip.sheet).attachAll c.attached := by
    rw [hread, if_pos ⟨rfl, hsheet⟩]
  have hcalls := Job.attached_calls hresult
  refine ⟨fun t ht hk => ?_, fun handle hother => ?_, fun id hid => ?_⟩
  · rw [hwritten]
    have hmem : t.handle ∈ c.attached.map Prod.fst := by
      rw [hcalls.mem_iff, htokens]
      exact List.mem_map_of_mem (List.mem_filter.2 ⟨ht, by simpa⟩)
    exact Sheet.isSome_args?_attachAll.2 (.inl hmem)
  · rw [hwritten]
    refine Sheet.args?_attachAll_of_not_mem fun hmem => ?_
    rw [hcalls.mem_iff, htokens] at hmem
    obtain ⟨t, ht, rfl⟩ := List.mem_map.1 hmem
    obtain ⟨ht, hk⟩ := List.mem_filter.1 ht
    exact hother t ht (by simpa using hk) rfl
  · rw [hread, if_neg fun h => hid h.1.symm]

/-- **An attempt writes only by succeeding, and what it writes is there for good.**  If it has
failed, or has been abandoned, all sheets are as they were.  If it has succeeded, each call of the
strip has arguments and nothing else has changed; and whatever is done to the session afterwards, an
attempt on tokens with one of these calls among them is refused and writes nothing. -/
theorem attempt_writes (hsheet : strip.sheet < s.sheets.size) {how : Attempt}
    {result : Option (Except Failure Listing)} {after : Session}
    (hafter : s.attempt engine strip mode source how = (result, after)) :
    ((∀ listing, result ≠ some (.ok listing)) → after.sheets = s.sheets) ∧
    ∀ listing, result = some (.ok listing) → s.Fills strip after ∧
      ∀ (requests : List Request) (engine' : Nat) (tokens : List Token) (m : Mode)
        (source' : Option String) (how' : Attempt),
        (∃ t ∈ tokens, t.kind = .call ∧ t ∈ strip.tokens) → how' ≠ .stepwise 0 →
        ∃ error later, error.defect = .alreadyCompiled ∧
          (after.performAll requests).attempt engine' ⟨strip.sheet, tokens⟩ m.name source' how'
            = (some (.error (.compile error)), later) ∧
          later.sheets = (after.performAll requests).sheets := by
  have hcases := s.attempt_cases engine strip mode source how
  rw [hafter] at hcases
  rcases hcases with ⟨hno, hsheets⟩ | ⟨job, c, htokens, hc, hresult, hsheets⟩
  · exact ⟨fun _ => hsheets, fun listing hlisting => absurd hlisting (hno listing)⟩
  · refine ⟨fun hno => absurd hresult (hno _), fun listing hlisting => ?_⟩
    have hfills : s.Fills strip after := settle_fills hsheet htokens hc hsheets
    refine ⟨hfills, fun requests engine' tokens m source' how' hshared hhow' => ?_⟩
    obtain ⟨t, ht, hk, hin⟩ := hshared
    have hkept := after.performAll_grows requests strip.sheet t.handle (hfills.calls t hin hk)
    let other : Strip := ⟨strip.sheet, tokens⟩
    have hused : ∃ t ∈ other.tokens, t.kind = .call ∧
        (((after.performAll requests).sheet other.sheet).args? t.handle).isSome :=
      ⟨t, ht, hk, hkept⟩
    obtain ⟨error, hdefect, hfst, hsnd⟩ := attempt_refused m source' hused hhow'
    exact ⟨error, _, hdefect, Prod.ext hfst rfl, hsnd⟩

/-- The tenth pull ends the compilation of `exp(2-1)` to prefix notation.  Neither these tokens nor
the name alone can be compiled after that. -/
theorem attempt_writes_difference : ∃ listing after,
    untouched.attempt 0 ⟨0, difference⟩ "pn" none (.stepwise 10) = (some (.ok listing), after) ∧
      untouched.Fills ⟨0, difference⟩ after ∧
      ∃ error later, error.defect = .alreadyCompiled ∧
        (after.performAll [.addEngine .standard, .compile 1 ⟨0, difference⟩ "rpn" none]).attempt 1
            ⟨0, [⟨.call, "exp", 0, 0⟩]⟩ "rpn" none .atOnce
          = (some (.error (.compile error)), later) := by
  let outcome := untouched.attempt 0 ⟨0, difference⟩ "pn" none (.stepwise 10)
  have hsuccess : outcome.1.any (·.isOk) := by decide +kernel
  obtain ⟨result, hresult, hok⟩ := (Option.any_eq_true _ _).1 hsuccess
  cases result with
  | error failure => cases hok
  | ok listing =>
    have hsheet : (⟨0, difference⟩ : Strip).sheet < untouched.sheets.size := by decide
    have hafter : untouched.attempt 0 ⟨0, difference⟩ "pn" none (.stepwise 10)
        = (some (.ok listing), outcome.2) := Prod.ext hresult rfl
    have hshared : ∃ t ∈ [(⟨.call, "exp", 0, 0⟩ : Token)], t.kind = .call ∧ t ∈ difference :=
      ⟨_, List.mem_cons_self, rfl, List.mem_cons_self⟩
    obtain ⟨hfills, hlater⟩ := (attempt_writes hsheet hafter).2 listing rfl
    obtain ⟨error, later, hdefect, hrefused, -⟩ := hlater
      [.addEngine .standard, .compile 1 ⟨0, difference⟩ "rpn" none] 1 _ .rpn none .atOnce hshared
      (by decide)
    exact ⟨listing, _, hafter, hfills, error, later, hdefect, hrefused⟩

end

end Session

end Polish
