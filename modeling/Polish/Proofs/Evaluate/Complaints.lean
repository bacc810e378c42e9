import Polish.Proofs.Evaluate.Run

/-!
# What an evaluation complains about

An evaluation that fails names a token, if there is any that it can name, and says what is wrong
with it.  `Complaint` lists all the ways to fail for an evaluation that meets tokens of some sort
only: it came to a stop at one of these tokens, a listing did not come to one value, or a call was
nested too deeply.

* `EvalCause.Concerns` — what a cause says of the token that it is about;
* `Job.single_keeps`, `Job.listing_keeps` — a token or a listing fails as may be expected, if its
  arguments do;
* `Job.run_complaint` — so does a whole evaluation, also if its surroundings change on the way.

## How the proof goes

`Keeps` says of a computation that its answers satisfy one condition and its failures another one,
and it does so without fixing the surroundings: they may be different at each look.  So whatever is
proved here holds of steppers too, between whose pulls anything may be registered.  The operations
of the evaluator have one lemma each, a listing is the induction over its tokens, and a whole
evaluation is the induction over the levels of calls.  In it the levels that are left and the depth
that has been reached always make up the limit, which is how the depth that is complained about is
known.
-/

set_option autoImplicit false

namespace Polish

/-- The cause is about the token: it has a kind that can fail in this way, and if there is a text in
the message it is that of the token. -/
def EvalCause.Concerns (token : Token) : EvalCause → Prop
  | invalidNumber text =>
    token.kind = .number ∧ text = token.text ∧ Literal.read? token.text = none
  | unknownConstant name => token.kind = .constant ∧ name = token.text
  | unknownFunction name | noArguments name => token.kind = .call ∧ name = token.text
  | missingOperands symbol | unknownOperator symbol =>
    token.kind = .operator ∧ symbol = token.text
  | unexpectedToken text =>
    token.kind ∉ [.number, .constant, .call, .operator] ∧ text = token.text
  | fault text _ => (token.kind = .operator ∨ token.kind = .call) ∧ text = token.text
  | stackLength => False

/-- From calls of some sort the arguments on the sheet lead to tokens of that sort only. -/
def Sheet.Closed (listed : Token → Prop) (sheet : Sheet) : Prop :=
  ∀ token, listed token → token.kind = .call → ∀ args, sheet.args? token.handle = some args →
    ∀ list ∈ args, ∀ t ∈ list, listed t

namespace Evaluate.Job

open Stepwise (Keeps)

variable {α : Type} {job : Job} {finds : Surroundings → Prop} {fails : Failure → Prop}
  {listed : Token → Prop} {frame : Frame} {deeper : Option Argument} {token : Token} {index : Nat}
  {stack : List Float}

/-! ## Single tokens -/

/-- An evaluation may come to a stop at the token. -/
def MayStop (job : Job) (fails : Failure → Prop) (token : Token) : Prop :=
  ∀ (cause : EvalCause) (stack : List Float), cause.Concerns token →
    fails (.eval ⟨cause, some token, stack, job.source⟩)

/-- If the token is a call, its arguments fail as may be expected.  Where there is no way to
evaluate arguments, it may be said that the call is nested too deeply. -/
def ArgumentsKeep (job : Job) (frame : Frame) (finds : Surroundings → Prop) (fails : Failure → Prop)
    (deeper : Option Argument) (token : Token) : Prop :=
  ∀ now, finds now → ∀ args, now.sheet.args? token.handle = some args →
    match deeper with
    | none => fails (.limit ⟨.callDepth, job.limits.callDepth, frame.depth + 1, some token.pos⟩)
    | some argument => ∀ list ∈ args, (argument token list).Keeps finds fails fun _ => True

theorem stop_keeps {post : α → Prop} {cause : EvalCause} (h : job.MayStop fails token)
    (hcause : cause.Concerns token) :
    (job.stop cause (some token) stack : Run α).Keeps finds fails post :=
  h cause stack hcause

theorem apply_keeps (h : job.MayStop fails token) (hk : token.kind = .operator ∨ token.kind = .call)
    (function : Function) (args : List Float) :
    (job.apply function args token stack).Keeps finds fails fun _ => True := by
  rw [apply]
  cases function (job.draws token.handle) args with
  | ok value => trivial
  | error reason => exact stop_keeps h ⟨hk, rfl⟩

theorem number_keeps (h : job.MayStop fails token) (hk : token.kind = .number) :
    (job.number frame token index stack).Keeps finds fails fun _ => True := by
  rw [number]
  cases hread : Literal.read? token.text with
  | none => exact stop_keeps h ⟨hk, rfl, hread⟩
  | some value => trivial

theorem constant_keeps (h : job.MayStop fails token) (hk : token.kind = .constant) :
    (job.constant frame token index stack).Keeps finds fails fun _ => True := by
  intro now _
  dsimp only
  cases now.registries.constants.find? token.text with
  | none => exact stop_keeps h ⟨hk, rfl⟩
  | some value => trivial

theorem operator_keeps (h : job.MayStop fails token) (hk : token.kind = .operator) :
    (job.operator frame token index stack).Keeps finds fails fun _ => True := by
  rw [operator]
  cases job.operands? stack with
  | none => exact stop_keeps h ⟨hk, rfl⟩
  | some found =>
    intro now _
    dsimp only
    cases now.registries.operators.find? token.text with
    | none => exact stop_keeps h ⟨hk, rfl⟩
    | some op => exact (apply_keeps h (.inl hk) _ _).bind fun _ _ => trivial

theorem argumentValues_keeps {argument : List Token → Run Float} {args : List (List Token)}
    (h : ∀ list ∈ args, (argument list).Keeps finds fails fun _ => True) :
    (argumentValues argument args).Keeps finds fails fun _ => True := by
  induction args with
  | nil => trivial
  | cons list rest ih =>
    obtain ⟨hlist, hrest⟩ := List.forall_mem_cons.1 h
    exact hlist.bind fun _ _ => (ih hrest).bind fun _ _ => trivial

theorem call_keeps (h : job.MayStop fails token) (hk : token.kind = .call)
    (hargs : job.ArgumentsKeep frame finds fails deeper token) :
    (job.call frame deeper token index stack).Keeps finds fails fun _ => True := by
  intro now hnow
  dsimp only
  cases now.registries.functions.find? token.text with
  | none => exact stop_keeps h ⟨hk, rfl⟩
  | some function =>
    dsimp only
    cases hfound : now.sheet.args? token.handle with
    | none => exact stop_keeps h ⟨hk, rfl⟩
    | some args =>
      have hargs := hargs now hnow args hfound
      cases deeper with
      | none => exact hargs
      | some argument =>
        refine (argumentValues_keeps hargs).bind fun values _ => ?_
        exact (apply_keeps h (.inr hk) function values).bind fun _ _ => trivial

/-- **A single token** fails over itself, or its arguments do. -/
theorem single_keeps (h : job.MayStop fails token)
    (hargs : token.kind = .call → job.ArgumentsKeep frame finds fails deeper token) :
    (job.single frame deeper token index stack).Keeps finds fails fun _ => True := by
  rw [single]
  cases hk : token.kind with
  | number => exact number_keeps h hk
  | constant => exact constant_keeps h hk
  | operator => exact operator_keeps h hk
  | call => exact call_keeps h hk (hargs hk)
  | openBracket | closeBracket | separator | other => exact stop_keeps h ⟨by simp [hk], rfl⟩

/-! ## Listings -/

theorem tokens_keeps {list : List (Token × Nat)} (h : ∀ t ∈ list.map Prod.fst, job.MayStop fails t)
    (hargs : ∀ t ∈ list.map Prod.fst, t.kind = .call →
      job.ArgumentsKeep frame finds fails deeper t) :
    (job.tokens frame deeper list stack).Keeps finds fails fun _ => True := by
  induction list generalizing stack with
  | nil => trivial
  | cons entry rest ih =>
    obtain ⟨t, i⟩ := entry
    rw [List.map_cons, List.forall_mem_cons] at h hargs
    rw [tokens_cons]
    exact (single_keeps h.1 hargs.1).bind fun _ _ => ih h.2 hargs.2

/-- **A listing** fails over one of its tokens, or because it does not come to one value. -/
theorem listing_keeps {list : List Token} (h : ∀ t ∈ list, job.MayStop fails t)
    (hargs : ∀ t ∈ list, t.kind = .call → job.ArgumentsKeep frame finds fails deeper t)
    (hvalue : ∀ stack : List Float, stack.length ≠ 1 →
      fails (.eval ⟨.stackLength, list.getLast? <|> frame.caller, stack, job.source⟩)) :
    (job.listing frame deeper list).Keeps finds fails fun _ => True := by
  have hmap := job.mode.map_scanOrder Prod.fst list.zipIdx
  rw [List.zipIdx_map_fst] at hmap
  have hmem {t : Token} (ht : t ∈ (job.mode.scanOrder list.zipIdx).map Prod.fst) : t ∈ list := by
    rw [hmap] at ht
    exact (job.mode.scanOrder_perm list).mem_iff.1 ht
  refine (tokens_keeps (fun t ht => h t (hmem ht)) fun t ht => hargs t (hmem ht)).bind
    fun stack _ => ?_
  split
  · trivial
  · next hne =>
    refine hvalue stack fun hlength => ?_
    obtain ⟨value, rfl⟩ := List.length_eq_one_iff.1 hlength
    exact hne value rfl

/-! ## Whole evaluations -/

/-- How an evaluation may fail if all tokens that it meets are of some sort: it comes to a stop at
one of them, the listing or an argument does not come to one value, or a call is nested more deeply
than calls may be. -/
inductive Complaint (job : Job) (listed : Token → Prop) (whole : List Token) : Failure → Prop
  | stop {token : Token} {cause : EvalCause} (stack : List Float) (hlisted : listed token)
      (hcause : cause.Concerns token) :
      Complaint job listed whole (.eval ⟨cause, some token, stack, job.source⟩)
  | values {list : List Token} {caller : Option Token} (stack : List Float)
      (hlist : ∀ t ∈ list, listed t) (hcaller : ∀ t ∈ caller, listed t)
      (hwhole : caller = none → list = whole) (hlength : stack.length ≠ 1) :
      Complaint job listed whole
        (.eval ⟨.stackLength, list.getLast? <|> caller, stack, job.source⟩)
  | depth {token : Token} (hlisted : listed token) (hk : token.kind = .call) :
      Complaint job listed whole (.limit ⟨.callDepth, job.limits.callDepth,
        (job.limits.callDepth.toNat : Int) + 1, some token.pos⟩)

variable {whole list : List Token}

/-- The levels that are left and the depth that has been reached make up the limit. -/
theorem evaluate_keeps {levels : Nat} (hlevels : levels + frame.depth = job.limits.callDepth.toNat)
    (hlist : ∀ t ∈ list, listed t) (hcaller : ∀ t ∈ frame.caller, listed t)
    (hwhole : frame.caller = none → list = whole) :
    (job.evaluate levels frame list).Keeps (fun now => now.sheet.Closed listed)
      (job.Complaint listed whole) fun _ => True := by
  induction levels generalizing frame list with
  | zero =>
    refine listing_keeps (fun t ht cause stack => .stop stack (hlist t ht)) (fun t ht hk => ?_)
      fun stack => .values stack hlist hcaller hwhole
    rintro now - args -
    have hdepth : frame.depth = job.limits.callDepth.toNat := by omega
    rw [hdepth]
    exact .depth (hlist t ht) hk
  | succ levels ih =>
    refine listing_keeps (fun t ht cause stack => .stop stack (hlist t ht)) (fun t ht hk => ?_)
      fun stack => .values stack hlist hcaller hwhole
    intro now hnow args hargs argument hargument
    refine ih (by simp only; omega) (hnow t (hlist t ht) hk args hargs argument hargument)
      (fun caller hcaller => ?_) fun hnone => by cases hnone
    obtain rfl := Option.some.inj hcaller
    exact hlist t ht

/-- **An evaluation complains about what it has met**, whatever the registries are at any time: if
all that it can meet are listed tokens, its complaints are about listed tokens. -/
theorem run_keeps (h : ∀ t ∈ list, listed t) :
    (job.run list).Keeps (fun now => now.sheet.Closed listed) (job.Complaint listed list)
      fun _ => True :=
  (evaluate_keeps (Nat.add_zero _) h (fun t ht => by cases ht) fun _ => rfl).bind fun _ _ => trivial

theorem run_complaint {now : Surroundings} (hsheet : now.sheet.Closed listed)
    (h : ∀ t ∈ list, listed t) {failure : Failure}
    (hrun : (job.run list).eager now = .error failure) : job.Complaint listed list failure :=
  (run_keeps h).of_error hsheet hrun

end Evaluate.Job

end Polish
