import Polish.Proofs.Session.Stage
import Polish.Session

/-!
# Compilations of the same tokens

The tokens of a strip can be compiled at once or step by step, and any number of compilations can be
under way at the same time; an `Act` is one thing that is done, and `Session.actAll` a sequence of
them.  A compilation looks at its sheet when it begins and writes on it when it ends.  So once one
has succeeded, the sheet is written, and whatever begins later is refused.

* `Session.act_of_none` — nothing is written except by a success;
* `Session.written_once` — a success writes the arguments of each call once; the only compilations
  that can succeed after it are those that were under way already, and where there are none the
  sheet stays as it is for good;
* `Session.written_twice` — two compilations that are under way together do both succeed, and the
  second one replaces what the first one wrote.

## How the proof goes

Every act is a success or it is not (`Only.result`), and after a success the tokens are not fresh
any more.  This is what `Closed` keeps: runs that are not under way yet will be refused at their
first look, so the set of those that can still succeed only gets smaller, and it does not have a
member that had not been pulled before.

There is nothing to be proved against two compilations that have both looked already.  The second
one does succeed, and `written_twice` shows it.
-/

set_option autoImplicit false

namespace Polish

open Compile (Compiled)

/-- Something that can be done with the tokens of a strip. -/
inductive Act where
  /-- Compiles them at once. -/
  | compile (engine : Nat) (mode : String) (source : Option String)
  /-- Begins a compilation that is pulled step by step. -/
  | start (engine : Nat) (mode : String) (source : Option String)
  | pull (run : Nat)

namespace Session

/-- The session after something has been done. -/
def act (strip : Strip) (s : Session) : Act → Session
  | .compile engine mode source => (s.compile engine strip mode source).2
  | .start engine mode source => (s.beginCompile engine strip mode source).toOption.getD s
  | .pull run => (s.pull run).2

/-- The session after several things have been done. -/
def actAll (strip : Strip) (s : Session) (acts : List Act) : Session := acts.foldl (act strip) s

/-- The listing that a compilation gives if it succeeds by what is done.  A run that has ended gives
its result again when it is pulled, but it does not succeed again. -/
def listing? (strip : Strip) (s : Session) : Act → Option Listing
  | .compile engine mode source => (s.compile engine strip mode source).1.toOption
  | .start .. => none
  | .pull run =>
    if (s.status run).1 then none
    else match (s.pull run).1 with
      | .ok (.done (some (.compiled result))) => result.toOption
      | _ => none

/-- What a success writes on the sheet of the strip. -/
def written (strip : Strip) (s : Session) (c : Compiled) : Session :=
  let sheet := (s.sheet strip.sheet).attachAll c.attached
  { s with sheets := s.sheets.setIfInBounds strip.sheet sheet }

variable {strip : Strip} {s : Session} {busy : Nat → Prop}

theorem sheet_runs (s : Session) (runs : Array ActiveRun) (id : Nat) :
    ({ s with runs } : Session).sheet id = s.sheet id := rfl

theorem sheet_written (runs : Array ActiveRun) (c : Compiled)
    (hsheet : strip.sheet < s.sheets.size) :
    (({ s with runs } : Session).written strip c).sheet strip.sheet
      = (s.sheet strip.sheet).attachAll c.attached := by
  simp [written, sheet, hsheet]

/-! ## What is done to a session -/

/-- All runs are compilations of the tokens of the strip, and only busy ones are under way. -/
def Only (s : Session) (strip : Strip) (busy : Nat → Prop) : Prop :=
  ∀ id run, s.runs[id]? = some run → ∃ engine stepper,
    run = .compilation engine strip.sheet stepper ∧
      Stage (s.engine engine).registries strip.tokens (busy id) stepper

/-- A compilation of the tokens of the strip can begin. -/
def Open (s : Session) (strip : Strip) : Prop := Fresh (s.sheet strip.sheet) strip.tokens

/-- Runs that have ended are not under way. -/
theorem Only.mono {busy' : Nat → Prop} (h : s.Only strip busy)
    (hbusy : ∀ id, busy id → (s.status id).1 = false → busy' id) : s.Only strip busy' := by
  intro id run hrun
  obtain ⟨engine, stepper, rfl, hstage⟩ := h id run hrun
  refine ⟨engine, stepper, rfl, hstage.mono fun hb hdone => hbusy id hb ?_⟩
  simpa [status, hrun] using hdone

theorem Only.set {busy' : Nat → Prop} (h : s.Only strip busy) (hbusy : ∀ id, busy id → busy' id)
    {id engine : Nat} {stepper : CompileStepper}
    (hstage : Stage (s.engine engine).registries strip.tokens (busy' id) stepper) :
    ({ s with runs := s.runs.setIfInBounds id (.compilation engine strip.sheet stepper) } :
      Session).Only strip busy' := by
  intro i run hrun
  rw [Array.getElem?_setIfInBounds] at hrun
  split at hrun
  · next hi =>
    subst hi
    split at hrun
    · exact ⟨engine, stepper, (Option.some.inj hrun).symm, hstage⟩
    · cases hrun
  · exact h.mono (fun i hi _ => hbusy i hi) i run hrun

theorem Only.push (h : s.Only strip busy) {engine : Nat} {stepper : CompileStepper}
    (hstage : ∀ busy, Stage (s.engine engine).registries strip.tokens busy stepper) :
    ({ s with runs := s.runs.push (.compilation engine strip.sheet stepper) } :
      Session).Only strip busy := by
  intro i run hrun
  rw [Array.getElem?_push] at hrun
  split at hrun
  · exact ⟨engine, stepper, (Option.some.inj hrun).symm, hstage _⟩
  · exact h i run hrun

/-- What comes of something that is done, given the runs afterwards: nothing at all, or a success of
a compilation that could begin, or of a busy run that was under way. -/
inductive Result (strip : Strip) (s : Session) (busy : Nat → Prop) (a : Act)
    (runs : Array ActiveRun) : Prop where
  | nothing (hnone : s.listing? strip a = none) (hact : s.act strip a = { s with runs })
  | success (listing : Listing) (hlisting : s.listing? strip a = some listing) (c : Compiled)
    (hact : s.act strip a = ({ s with runs } : Session).written strip c) (registries : Registries)
    (hcomes : Comes registries strip.tokens c)
    (hbegun : s.Open strip ∨ ∃ id, a = .pull id ∧ busy id ∧ (s.status id).1 = false)
    (hended : ∀ id, a = .pull id → ((s.act strip a).status id).1 = true)

/-- Compiling at once succeeds only if compilations can begin. -/
theorem Only.result_compile (h : s.Only strip busy) (engine : Nat) (mode : String)
    (source : Option String) : ∃ runs, ({ s with runs } : Session).Only strip busy ∧
      Result strip s busy (.compile engine mode source) runs := by
  refine ⟨s.runs, h, ?_⟩
  cases hc : (s.engine engine).compile (s.sheet strip.sheet) strip.tokens mode source with
  | error failure =>
    exact .nothing (by simp [listing?, compile, settle, hc, Except.toOption])
      (by simp [act, compile, settle, hc])
  | ok c =>
    obtain ⟨job, htokens, hrun⟩ := Engine.compile_ok hc
    have hopen : s.Open strip := by
      rw [Open, ← htokens]
      exact (Compile.Job.run_ok_iff.1 hrun).1
    exact .success ⟨⟨strip.sheet, c.listing⟩, c.evaluable⟩
      (by simp [listing?, compile, settle, hc, Except.toOption]) c
      (by simp [act, compile, settle, hc, written]) (s.engine engine).registries
      ⟨job, _, htokens, rfl, hrun⟩ (.inl hopen) fun id hpull => by cases hpull

/-- Beginning a compilation writes nothing. -/
theorem Only.result_start (h : s.Only strip busy) (engine : Nat) (mode : String)
    (source : Option String) : ∃ runs, ({ s with runs } : Session).Only strip busy ∧
      Result strip s busy (.start engine mode source) runs := by
  rcases (s.engine engine).compilation_cases strip.tokens mode source with
    ⟨failure, hfailure⟩ | ⟨job, htokens, hjob⟩
  · have hact : s.act strip (.start engine mode source) = s := by
      rw [act, beginCompile, hfailure]
      rfl
    exact ⟨s.runs, h, .nothing rfl hact⟩
  · let stepper : CompileStepper := .live job.run.attempt
    have hact : s.act strip (.start engine mode source)
        = { s with runs := s.runs.push (.compilation engine strip.sheet stepper) } := by
      rw [act, beginCompile, hjob]
      rfl
    exact ⟨_, h.push fun _ => .waiting job htokens, .nothing rfl hact⟩

/-- A pull succeeds only if compilations can begin or the run has been pulled before. -/
theorem Only.result_pull (h : s.Only strip busy) (id : Nat) :
    ∃ runs, ({ s with runs } : Session).Only strip
        (fun i => busy i ∨ Act.pull id = .pull i ∧ s.Open strip) ∧
      Result strip s busy (.pull id) runs := by
  cases hrun : s.runs[id]? with
  | none =>
    refine ⟨s.runs, h.mono fun i hb _ => .inl hb, .nothing ?_ ?_⟩
    · simp [listing?, pull, status, hrun]
    · simp [act, pull, hrun]
  | some run =>
    obtain ⟨engine, stepper, rfl, hstage⟩ := h id run hrun
    have hnow : ((s.engine engine).surroundings (s.sheet strip.sheet)).registries
        = (s.engine engine).registries := rfl
    obtain ⟨outcome, stepper', hstep, hstage', hdone⟩ := hstage.step hnow
    let runs := s.runs.setIfInBounds id (.compilation engine strip.sheet stepper')
    have hruns : ({ s with runs } : Session).Only strip
        (fun i => busy i ∨ Act.pull id = .pull i ∧ s.Open strip) :=
      h.set (fun _ => .inl) (hstage'.mono fun hb _ => hb.imp_right fun ho => ⟨rfl, ho⟩)
    refine ⟨runs, hruns, ?_⟩
    cases outcome with
    | step step =>
      exact .nothing (by simp [listing?, status, pull, hrun, hstep])
        (by simp [act, pull, hrun, hstep, runs])
    | done result =>
      obtain ⟨rfl, hsuccess⟩ := hdone result rfl
      -- A run that had ended before gives its result again, and this is no success.
      cases hended : stepper.isDone with
      | true =>
        refine .nothing (by simp [listing?, status, hrun, hended]) ?_
        rcases result with _ | result
        · simp [act, pull, hrun, hstep, runs]
        · simp [act, pull, hrun, hstep, hended, runs]
      | false =>
        rcases result with _ | _ | c
        · exact .nothing (by simp [listing?, status, pull, hrun, hstep])
            (by simp [act, pull, hrun, hstep, runs])
        · exact .nothing
            (by simp [listing?, status, pull, hrun, hstep, hended, settle, Except.toOption])
            (by simp [act, pull, hrun, hstep, hended, settle, runs])
        · obtain ⟨hbegun, hcomes⟩ := hsuccess c hended rfl
          have hact : s.act strip (.pull id) = ({ s with runs } : Session).written strip c := by
            simp [act, pull, hrun, hstep, hended, settle, written, runs, sheet_runs]
          have hbound : id < s.runs.size := (Array.getElem?_eq_some_iff.1 hrun).1
          refine .success ⟨⟨strip.sheet, c.listing⟩, c.evaluable⟩
            (by simp [listing?, status, pull, hrun, hstep, hended, settle, Except.toOption]) c hact
            _ hcomes (hbegun.symm.imp_right fun hb => ⟨id, rfl, hb, ?_⟩) ?_
          · simpa [status, hrun] using hended
          · rintro _ ⟨⟩
            simp [hact, written, status, runs, hbound, Stepper.isDone]

/-- **Whatever is done**, a run becomes busy only if it is pulled while compilations can begin. -/
theorem Only.result (h : s.Only strip busy) (a : Act) :
    ∃ runs, ({ s with runs } : Session).Only strip
        (fun id => busy id ∨ a = .pull id ∧ s.Open strip) ∧ Result strip s busy a runs := by
  cases a with
  | compile engine mode source =>
    obtain ⟨runs, hruns, hresult⟩ := h.result_compile engine mode source
    exact ⟨runs, hruns.mono fun id hb _ => .inl hb, hresult⟩
  | start engine mode source =>
    obtain ⟨runs, hruns, hresult⟩ := h.result_start engine mode source
    exact ⟨runs, hruns.mono fun id hb _ => .inl hb, hresult⟩
  | pull id => exact h.result_pull id

theorem Only.act (h : s.Only strip busy) (a : Act) :
    (s.act strip a).Only strip (fun id => busy id ∨ a = .pull id ∧ s.Open strip) := by
  obtain ⟨runs, hruns, hresult⟩ := h.result a
  cases hresult with
  | nothing hnone hact => rwa [hact]
  | success listing hlisting c hact => rwa [hact]

theorem Only.size_act (h : s.Only strip busy) (a : Act) :
    (s.act strip a).sheets.size = s.sheets.size := by
  obtain ⟨runs, -, hresult⟩ := h.result a
  cases hresult with
  | nothing hnone hact => rw [hact]
  | success listing hlisting c hact => rw [hact, written, Array.size_setIfInBounds]

/-- **Nothing is written except by a success.** -/
theorem Only.sheet_act_of_none (h : s.Only strip busy) {a : Act}
    (hnone : s.listing? strip a = none) : (s.act strip a).sheet strip.sheet
      = s.sheet strip.sheet := by
  obtain ⟨runs, -, hresult⟩ := h.result a
  cases hresult with
  | nothing _ hact => rw [hact, sheet_runs]
  | success listing hlisting => simp [hnone] at hlisting

/-! ## After a success -/

/-- No compilation can begin any more; only busy runs are under way. -/
structure Closed (s : Session) (strip : Strip) (busy : Nat → Prop) : Prop where
  only : s.Only strip busy
  not_open : ¬ s.Open strip
  size : strip.sheet < s.sheets.size

/-- What can succeed now has been under way before. -/
theorem Closed.of_listing? (h : s.Closed strip busy) {a : Act}
    (hsome : (s.listing? strip a).isSome) :
    ∃ id, a = .pull id ∧ busy id ∧ (s.status id).1 = false := by
  obtain ⟨runs, -, hresult⟩ := h.only.result a
  cases hresult with
  | nothing hnone => simp [hnone] at hsome
  | success _ _ _ _ _ _ hbegun => exact hbegun.resolve_left h.not_open

theorem Closed.act (h : s.Closed strip busy) (a : Act) : (s.act strip a).Closed strip busy where
  only := (h.only.act a).mono fun id hb _ => hb.resolve_right fun ho => h.not_open ho.2
  not_open := by
    obtain ⟨runs, -, hresult⟩ := h.only.result a
    cases hresult with
    | nothing _ hact =>
      rw [hact]
      exact h.not_open
    | success _ _ c hact =>
      rw [hact, Open, sheet_written runs c h.size]
      exact fun hfresh => h.not_open hfresh.of_attachAll
  size := by
    rw [h.only.size_act]
    exact h.size

/-- **Once closed, a session stays closed**, and if no run is busy its sheet stays as it is. -/
theorem Closed.actAll (h : s.Closed strip busy) (acts : List Act) :
    (s.actAll strip acts).Closed strip busy ∧
      ((∀ id, ¬ busy id) → (s.actAll strip acts).sheet strip.sheet = s.sheet strip.sheet) := by
  induction acts generalizing s with
  | nil => exact ⟨h, fun _ => rfl⟩
  | cons a acts ih =>
    obtain ⟨hclosed, hsheet⟩ := ih (h.act a)
    refine ⟨hclosed, fun hidle => (hsheet hidle).trans (h.only.sheet_act_of_none ?_)⟩
    cases hlisting : s.listing? strip a with
    | none => rfl
    | some listing =>
      obtain ⟨id, -, hbusy, -⟩ := h.of_listing? (by rw [hlisting]; rfl)
      exact absurd hbusy (hidle id)

/-- Only runs that have been pulled are under way. -/
theorem Only.actAll (h : s.Only strip busy) (acts : List Act) :
    (s.actAll strip acts).Only strip (fun id => busy id ∨ .pull id ∈ acts) := by
  induction acts generalizing s busy with
  | nil => exact h.mono fun id hb _ => .inl hb
  | cons a acts ih =>
    refine (ih (h.act a)).mono fun id hb _ => ?_
    rcases hb with (hb | ⟨rfl, -⟩) | hb
    · exact .inl hb
    · exact .inr List.mem_cons_self
    · exact .inr (List.mem_cons_of_mem a hb)

theorem Only.size_actAll (h : s.Only strip busy) (acts : List Act) :
    (s.actAll strip acts).sheets.size = s.sheets.size := by
  induction acts generalizing s busy with
  | nil => rfl
  | cons a acts ih => exact (ih (h.act a)).trans (h.size_act a)

/-- **What is written is written once, unless compilations overlap.**  A success attaches arguments
to each call of the tokens once.  What succeeds after it is a run that has been pulled before it and
had not ended then; and if there is no such run, the sheet stays as it is, whatever is done. -/
theorem written_once (hruns : s.runs = #[]) (hsheet : strip.sheet < s.sheets.size)
    (hcall : ∃ t ∈ strip.tokens, t.kind = .call) {acts : List Act} {a : Act}
    {before after : Session} (hbefore : s.actAll strip acts = before)
    (hafter : before.act strip a = after) (hsuccess : (before.listing? strip a).isSome) :
    (∃ entries, after.sheet strip.sheet = (before.sheet strip.sheet).attachAll entries ∧
        (entries.map Prod.fst).Perm
          ((strip.tokens.filter (·.kind = .call)).map Token.handle)) ∧
      (∀ later b, ((after.actAll strip later).listing? strip b).isSome →
        ∃ id, b = .pull id ∧ .pull id ∈ acts ∧ (after.status id).1 = false) ∧
      ((∀ id, .pull id ∈ acts → (after.status id).1 = true) →
        ∀ later, (after.actAll strip later).sheet strip.sheet = after.sheet strip.sheet) := by
  have hstart : s.Only strip fun _ => False := fun id run hrun => by simp [hruns] at hrun
  have hsize : strip.sheet < before.sheets.size := by
    rw [← hbefore, hstart.size_actAll]
    exact hsheet
  have honly : before.Only strip fun id => .pull id ∈ acts := by
    rw [← hbefore]
    exact (hstart.actAll acts).mono fun _ hb _ => hb.resolve_left False.elim
  obtain ⟨runs, -, hresult⟩ := honly.result a
  cases hresult with
  | nothing hnone => simp [hnone] at hsuccess
  | success listing hlisting c hact registries hcomes hbegun hended =>
    obtain ⟨job, now, htokens, -, hrun⟩ := hcomes
    have hwritten : after.sheet strip.sheet
        = (before.sheet strip.sheet).attachAll c.attached := by
      rw [← hafter, hact, sheet_written runs c hsize]
    have hclosed : after.Closed strip
        fun id => .pull id ∈ acts ∧ (after.status id).1 = false := by
      refine ⟨?_, ?_, ?_⟩
      · rw [← hafter]
        refine (honly.act a).mono fun id hb hlive => ⟨hb.resolve_right ?_, hlive⟩
        -- The run that has just succeeded is over, and it is the only one that this act has pulled.
        rintro ⟨rfl, -⟩
        rw [hended id rfl] at hlive
        cases hlive
      · rw [Open, hwritten, ← htokens]
        exact Compile.Job.not_fresh hrun (htokens ▸ hcall) _
      · rw [← hafter, honly.size_act]
        exact hsize
    refine ⟨⟨c.attached, hwritten, htokens ▸ Compile.Job.attached_calls hrun⟩,
      fun later b hb => ?_, fun hidle later => ?_⟩
    · obtain ⟨id, rfl, hbusy, -⟩ := (hclosed.actAll later).1.of_listing? hb
      exact ⟨id, rfl, hbusy⟩
    · refine (hclosed.actAll later).2 fun id hbusy => ?_
      rw [hidle id hbusy.1] at hbusy
      cases hbusy.2

/-- The tokens of `exp(2-1)`. -/
def difference : List Token := [⟨.call, "exp", 0, 0⟩, ⟨.openBracket, "(", 3, 1⟩,
  ⟨.number, "2", 4, 2⟩, ⟨.operator, "-", 5, 3⟩, ⟨.number, "1", 6, 4⟩, ⟨.closeBracket, ")", 7, 5⟩]

/-- A session with these tokens and nothing done to them. -/
def untouched : Session := ((start .standard).addStrip .empty difference).2

/-- A run that has not been pulled before a compilation at once does no harm to it afterwards, and
neither does another compilation. -/
theorem written_once_difference :
    ((untouched.actAll ⟨0, difference⟩ [.start 0 "pn" none, .compile 0 "rpn" none]).actAll
        ⟨0, difference⟩ [.pull 0, .compile 0 "pn" none]).sheet 0
      = ⟨[(0, [[⟨.number, "2", 4, 2⟩, ⟨.number, "1", 6, 4⟩, ⟨.operator, "-", 5, 3⟩]])]⟩ := by
  let strip : Strip := ⟨0, difference⟩
  let before := untouched.actAll strip [.start 0 "pn" none]
  have hsuccess : (before.listing? strip (.compile 0 "rpn" none)).isSome := by decide +kernel
  have hsheet : (before.act strip (.compile 0 "rpn" none)).sheet 0
      = ⟨[(0, [[⟨.number, "2", 4, 2⟩, ⟨.number, "1", 6, 4⟩, ⟨.operator, "-", 5, 3⟩]])]⟩ := by
    decide +kernel
  rw [← hsheet]
  have hruns : untouched.runs = #[] := rfl
  have hsize : strip.sheet < untouched.sheets.size := by decide
  have hcall : ∃ t ∈ strip.tokens, t.kind = .call := ⟨_, List.mem_cons_self, rfl⟩
  exact (written_once hruns hsize hcall rfl rfl hsuccess).2.2 (by simp)
    [.pull 0, .compile 0 "pn" none]

/-- **Two compilations that are under way together do both succeed**, and the second one replaces
the arguments that the first one has attached. -/
theorem written_twice : ∃ before after later : Session,
    before = untouched.actAll ⟨0, difference⟩
      ([.start 0 "rpn" none, .start 0 "pn" none, .pull 0, .pull 1]
        ++ List.replicate 8 (.pull 0)) ∧
      (before.listing? ⟨0, difference⟩ (.pull 0)).isSome ∧
      after = before.act ⟨0, difference⟩ (.pull 0) ∧
      later = after.actAll ⟨0, difference⟩ (List.replicate 8 (.pull 1)) ∧
      (later.listing? ⟨0, difference⟩ (.pull 1)).isSome ∧
      (after.sheet 0).args? 0
        = some [[⟨.number, "2", 4, 2⟩, ⟨.number, "1", 6, 4⟩, ⟨.operator, "-", 5, 3⟩]] ∧
      ((later.act ⟨0, difference⟩ (.pull 1)).sheet 0).args? 0
        = some [[⟨.operator, "-", 5, 3⟩, ⟨.number, "2", 4, 2⟩, ⟨.number, "1", 6, 4⟩]] := by
  refine ⟨_, _, _, rfl, ?_, rfl, rfl, ?_, ?_, ?_⟩ <;> decide +kernel

end Session

end Polish
