import Polish.Proofs.Evaluate.Run

/-!
# Arguments are evaluated as if they stood alone

An argument is evaluated inside of other calls, with fewer levels left than if it stood alone.  That
makes no difference as long as the levels last: `Mirrors` says so of two computations.  The steps of
an argument are therefore those of its evaluation on its own, marked as nested and without the step
for the result, `Job.aside`; before them comes a step that shows the empty stack.

* `Job.evaluate_mirrors` — an evaluation inside of calls mirrors one that is not;
* `Job.evaluate_outermost` — the arguments of calls that are inside of no other call are evaluated
  by `Job.inner`;
* `Job.inner_shows` — what is shown of them.

## How the proof goes

Both computations are the same term but for the frame, which says who is calling, and for the levels
that are left.  `Mirrors` goes through `bind`, `look` and `emit`, and the operations of the
evaluator are composed of these, so the induction is on the levels only.  Where those inside of
calls come to an end a computation fails that would have gone on elsewhere, and this is why
`Mirrors` asks the steps to be the same only up to a failure.
-/

set_option autoImplicit false

namespace Polish.Evaluate

open Stepwise (Shows)

/-- A step as it is shown inside of an argument. -/
def Step.inside (step : Step) : Step := { step with nested := true }

/-! ## Evaluations inside of calls -/

section

variable {α β : Type} {now : Surroundings} {c c' : Run α}

/-- The first computation goes the way of the second one, but inside of an argument: all the way, or
until it fails. -/
structure Mirrors (now : Surroundings) (c c' : Run α) : Prop where
  isPrefix : (c.trace now).1 <+: (c'.trace now).1.map Step.inside
  noResult : ∀ step ∈ (c.trace now).1, step.move ≠ .result
  complete : ∀ a, (c.trace now).2 = .ok a →
    (c'.trace now).2 = .ok a ∧ (c.trace now).1 = (c'.trace now).1.map Step.inside

namespace Mirrors

/-- Computations without steps that end in the same way. -/
theorem of_trace {result : Except Failure α} (h : c.trace now = ([], result))
    (h' : c'.trace now = ([], result)) : Mirrors now c c' := by
  constructor
  · rw [h]
    exact List.nil_prefix
  · rw [h]
    exact List.forall_mem_nil _
  · rw [h, h']
    exact fun a ha => ⟨ha, rfl⟩

/-- A computation that fails at once mirrors any other. -/
theorem fail (failure : Failure) (c' : Run α) : Mirrors now (.fail failure) c' :=
  ⟨List.nil_prefix, List.forall_mem_nil _, nofun⟩

theorem look {next next' : Surroundings → Run α} (h : Mirrors now (next now) (next' now)) :
    Mirrors now (.look next) (.look next') := ⟨h.isPrefix, h.noResult, h.complete⟩

theorem emit {step step' : Step} (hstep : step = step'.inside) (hmove : step.move ≠ .result)
    (h : Mirrors now c c') : Mirrors now (.emit step c) (.emit step' c') := by
  refine ⟨?_, ?_, fun a ha => ?_⟩
  · exact List.cons_prefix_cons.2 ⟨hstep, h.isPrefix⟩
  · exact List.forall_mem_cons.2 ⟨hmove, h.noResult⟩
  · obtain ⟨hresult, hsteps⟩ := h.complete a ha
    exact ⟨hresult, List.cons_eq_cons.2 ⟨hstep, hsteps⟩⟩

theorem bind {f f' : α → Run β} (hc : Mirrors now c c') (hf : ∀ a, Mirrors now (f a) (f' a)) :
    Mirrors now (c.bind f) (c'.bind f') := by
  cases hresult : (c.trace now).2 with
  | error failure =>
    have htrace := Stepwise.trace_bind_error hresult f
    refine ⟨?_, ?_, ?_⟩
    · rw [htrace]
      exact hc.isPrefix.trans ((Stepwise.trace_bind_begins c' f').map _)
    · rw [htrace]
      exact hc.noResult
    · rw [htrace]
      exact nofun
  | ok a =>
    obtain ⟨hresult', hsteps⟩ := hc.complete a hresult
    have htrace := Stepwise.trace_bind_ok hresult f
    have htrace' := Stepwise.trace_bind_ok hresult' f'
    refine ⟨?_, ?_, fun b hb => ?_⟩
    · rw [htrace, htrace', List.map_append, ← hsteps]
      exact (List.prefix_append_right_inj _).2 (hf a).isPrefix
    · rw [htrace]
      exact List.forall_mem_append.2 ⟨hc.noResult, (hf a).noResult⟩
    · rw [htrace] at hb
      obtain ⟨hb', hrest⟩ := (hf a).complete b hb
      rw [htrace, htrace', List.map_append, ← hsteps, ← hrest]
      exact ⟨hb', rfl⟩

end Mirrors

end

namespace Job

variable {job : Job} {now : Surroundings} {frame frame' : Frame} {token : Token} {index : Nat}
  {stack : List Float} {deeper deeper' : Option Argument}

/-- Where arguments can be evaluated inside of calls, they can be evaluated elsewhere in the same
way. -/
inductive Within (now : Surroundings) : Option Argument → Option Argument → Prop
  | none (deeper' : Option Argument) : Within now .none deeper'
  | some {argument argument' : Argument}
      (h : ∀ caller list, Mirrors now (argument caller list) (argument' caller list)) :
      Within now (.some argument) (.some argument')

theorem pushValue_mirrors (hframe : frame.nested = true) (value : Float) :
    Mirrors now (pushValue frame token index stack value)
      (pushValue frame' token index stack value) :=
  .emit (by simp [Step.inside, hframe]) (by simp) (.of_trace rfl rfl)

theorem apply_mirrors (function : Function) (args : List Float) :
    Mirrors now (job.apply function args token stack) (job.apply function args token stack) := by
  rw [apply]
  cases function (job.draws token.handle) args <;> exact .of_trace rfl rfl

theorem argumentValues_mirrors {argument argument' : List Token → Run Float}
    (h : ∀ list, Mirrors now (argument list) (argument' list)) (args : List (List Token)) :
    Mirrors now (argumentValues argument args) (argumentValues argument' args) := by
  induction args with
  | nil => exact .of_trace rfl rfl
  | cons list rest ih => exact (h list).bind fun value => ih.bind fun values => .of_trace rfl rfl

theorem call_mirrors (hframe : frame.nested = true) (h : Within now deeper deeper') :
    Mirrors now (job.call frame deeper token index stack)
      (job.call frame' deeper' token index stack) := by
  refine .look ?_
  cases now.registries.functions.find? token.text with
  | none => exact .fail _ _
  | some function =>
    dsimp only
    cases now.sheet.args? token.handle with
    | none => exact .fail _ _
    | some args =>
      dsimp only
      rcases h with deeper' | h
      · exact .fail _ _
      · refine (argumentValues_mirrors (h token) args).bind fun values => ?_
        refine .emit (by simp [Step.inside, hframe]) (by simp) ?_
        refine (apply_mirrors function values).bind fun value => ?_
        exact .emit (by simp [Step.inside, hframe]) (by simp) (.of_trace rfl rfl)

theorem single_mirrors (hframe : frame.nested = true) (h : Within now deeper deeper') :
    Mirrors now (job.single frame deeper token index stack)
      (job.single frame' deeper' token index stack) := by
  rw [single, single]
  cases token.kind with
  | number =>
    dsimp only [number]
    cases Literal.read? token.text with
    | none => exact .fail _ _
    | some value => exact pushValue_mirrors hframe value
  | constant =>
    refine .look ?_
    cases now.registries.constants.find? token.text with
    | none => exact .fail _ _
    | some value => exact pushValue_mirrors hframe value
  | call => exact call_mirrors hframe h
  | operator =>
    dsimp only [operator]
    cases job.operands? stack with
    | none => exact .fail _ _
    | some found =>
      refine .look ?_
      cases now.registries.operators.find? token.text with
      | none => exact .fail _ _
      | some op =>
        refine (apply_mirrors op.function _).bind fun value => ?_
        exact .emit (by simp [Step.inside, hframe]) (by simp) (.of_trace rfl rfl)
  | openBracket | closeBracket | separator | other => exact .fail _ _

theorem tokens_mirrors (hframe : frame.nested = true) (h : Within now deeper deeper')
    (list : List (Token × Nat)) (stack : List Float) :
    Mirrors now (job.tokens frame deeper list stack) (job.tokens frame' deeper' list stack) := by
  induction list generalizing stack with
  | nil => exact .of_trace rfl rfl
  | cons entry rest ih =>
    obtain ⟨token, index⟩ := entry
    rw [tokens_cons, tokens_cons]
    exact (single_mirrors hframe h).bind ih

theorem listing_mirrors (hframe : frame.nested = true) (h : Within now deeper deeper')
    (list : List Token) :
    Mirrors now (job.listing frame deeper list) (job.listing frame' deeper' list) := by
  refine (tokens_mirrors hframe h _ _).bind fun stack => ?_
  split
  · exact .of_trace rfl rfl
  · exact .fail _ _

/-- **An evaluation inside of calls goes the way of one that is not**, as long as the levels
last. -/
theorem evaluate_mirrors {levels levels' : Nat} (hle : levels ≤ levels')
    (hframe : frame.nested = true) (list : List Token) :
    Mirrors now (job.evaluate levels frame list) (job.evaluate levels' frame' list) := by
  induction levels generalizing levels' frame frame' list with
  | zero =>
    cases levels' with
    | zero => exact listing_mirrors hframe (.none _) list
    | succ levels' => exact listing_mirrors hframe (.none _) list
  | succ levels ih =>
    obtain ⟨more, rfl⟩ : ∃ more, levels' = more + 1 := ⟨levels' - 1, by omega⟩
    refine listing_mirrors hframe (.some fun caller list => ?_) list
    refine .emit rfl (by simp) (ih (by omega) ?_ list)
    simp [Frame.nested]

/-! ## Arguments -/

variable (job now) in
/-- The steps of a listing that is evaluated on its own, as they are shown inside of an argument. -/
def aside (list : List Token) : List Step :=
  (((job.run list).trace now).1.filter (·.move ≠ .result)).map Step.inside

/-- The step with which an argument of a call begins, on an empty stack. -/
def opening (caller : Token) : Step := ⟨.updateStack, some caller, -1, [], 0, true, none⟩

variable (job now) in
/-- The steps of an argument of a call. -/
def block (caller : Token) (list : List Token) : List Step := opening caller :: job.aside now list

variable (job) in
/-- The evaluation of an argument of a call that is inside of no other call. -/
def inner (caller : Token) (list : List Token) : Run Float :=
  job.evaluate (job.limits.callDepth.toNat - 1) ⟨1, some caller⟩ list

variable (job) in
/-- How the arguments of calls that are inside of no other call are evaluated, if calls are allowed
at all. -/
def outermost : Option Argument :=
  if job.limits.callDepth ≤ 0 then none
  else some fun caller list => .emit (opening caller) (job.inner caller list)

/-- A whole listing is evaluated outside of all calls. -/
theorem evaluate_outermost (list : List Token) :
    job.evaluate job.limits.callDepth.toNat ⟨0, none⟩ list
      = job.listing ⟨0, none⟩ job.outermost list := by
  cases hlevels : job.limits.callDepth.toNat with
  | zero =>
    rw [outermost, if_pos (Int.toNat_eq_zero.1 hlevels)]
    rfl
  | succ levels =>
    rw [outermost, if_neg (by omega)]
    have hinner : job.inner = fun caller => job.evaluate levels ⟨1, some caller⟩ := by
      funext caller list
      rw [inner, hlevels, Nat.add_sub_cancel]
    rw [hinner]
    rfl

/-- A whole evaluation is the evaluation of its listing and, if that succeeds, one more step. -/
theorem run_trace (list : List Token) :
    (job.run list).trace now =
      match (job.evaluate job.limits.callDepth.toNat ⟨0, none⟩ list).trace now with
      | (steps, .ok value) =>
        (steps ++ [⟨.result, none, list.length, [value], value, false, none⟩], .ok value)
      | (steps, .error failure) => (steps, .error failure) := by
  show ((job.evaluate _ ⟨0, none⟩ list).bind _).trace now = _
  rw [Stepwise.trace_bind]
  rcases (job.evaluate job.limits.callDepth.toNat ⟨0, none⟩ list).trace now with ⟨steps, result⟩
  cases result <;> rfl

theorem aside_eq (list : List Token) :
    job.aside now list
      = (((job.evaluate job.limits.callDepth.toNat ⟨0, none⟩ list).trace now).1.filter
          (·.move ≠ .result)).map Step.inside := by
  rw [aside, run_trace]
  rcases (job.evaluate job.limits.callDepth.toNat ⟨0, none⟩ list).trace now with ⟨steps, result⟩
  cases result <;> simp

/-- Leaving the result out of what is shown of an argument leaves it as it is. -/
theorem filter_inside {shown steps : List Step} (hshown : shown = steps.map Step.inside)
    (hmoves : ∀ step ∈ shown, step.move ≠ .result) :
    (steps.filter (·.move ≠ .result)).map Step.inside = shown := by
  subst hshown
  congr 1
  refine List.filter_eq_self.2 fun step hstep => ?_
  have hmove : step.move ≠ .result := hmoves step.inside (List.mem_map_of_mem hstep)
  exact decide_eq_true hmove

/-- **What is shown of an argument** are the steps of its evaluation on its own, all of them or
until it fails. -/
theorem inner_shows (caller : Token) (list : List Token) :
    Shows now (job.inner caller list)
      (fun shown value => (job.run list).eager now = .ok value ∧ shown = job.aside now list)
      (fun shown => shown <+: job.aside now list) := by
  have hmirrors : Mirrors now (job.inner caller list)
      (job.evaluate job.limits.callDepth.toNat ⟨0, none⟩ list) :=
    evaluate_mirrors (Nat.sub_le _ _) rfl list
  rw [Shows]
  rcases htrace : (job.inner caller list).trace now with ⟨shown, result⟩
  obtain ⟨hstart, hmoves, hcomplete⟩ := hmirrors
  rw [htrace] at hstart hmoves hcomplete
  cases result with
  | error failure =>
    obtain ⟨rest, hrest⟩ := hstart
    obtain ⟨before, after, hsplit, hbefore, -⟩ := List.map_eq_append_iff.1 hrest.symm
    show shown <+: _
    rw [aside_eq, hsplit, List.filter_append, List.map_append, filter_inside hbefore.symm hmoves]
    exact List.prefix_append _ _
  | ok value =>
    obtain ⟨hresult, hsteps⟩ := hcomplete value rfl
    have heager := (Stepwise.trace_snd now _).symm.trans hresult
    constructor
    · rw [run, Stepwise.bind_eq, Stepwise.eager_bind_of_ok heager]
      rfl
    · rw [aside_eq, filter_inside hsteps hmoves]

end Job

end Polish.Evaluate
