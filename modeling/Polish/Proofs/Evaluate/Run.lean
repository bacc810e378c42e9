import Polish.Evaluate
import Polish.Proofs.Stepwise

/-!
# What an evaluation does

An evaluation succeeds if every token can do its part, and `Does` says what that is: a value goes
on the stack, an operator takes two values off and puts one on, and a call puts on what its function
makes of the values of its arguments.

* `Runs` is one token after another;
* `Evaluates` is a whole listing with a number of levels of calls left;
* `Job.evaluate_ok_iff` — this is when `Job.evaluate` succeeds.

## Why there is a relation

The evaluator is a computation with steps, and it asks for what is registered and for the arguments
of calls as it comes to them.  For what an expression is worth none of this matters, so here it is
left off once: each operation has a lemma that says when it answers and with what (`number_ok`, …,
`call_ok`), and `evaluate_ok_iff` puts them together by induction on the levels of calls.  What is
proved about values after that is proved about `Runs`, by induction on lists or trees.
-/

set_option autoImplicit false

namespace Polish.Evaluate

open Stepwise (eager_bind_ok)

/-- What a listing evaluates to. -/
abbrev Meaning := List Token → Float → Prop

/-- What each of several listings evaluates to. -/
def Values (meaning : Meaning) : List (List Token) → List Float → Prop
  | [], values => values = []
  | list :: rest, values =>
    ∃ value others, values = value :: others ∧ meaning list value ∧ Values meaning rest others

section

variable (job : Job) (now : Surroundings) (inner : Option Meaning)

/-- What a token does to the stack, if it can.  Without a meaning of arguments there is no calling
any function. -/
def Does (token : Token) (stack stack' : List Float) : Prop :=
  match token.kind with
  | .number => ∃ value, Literal.read? token.text = some value ∧ stack' = value :: stack
  | .constant => ∃ value, now.registries.constants.find? token.text = some value ∧
      stack' = value :: stack
  | .operator => ∃ left right below op value, job.operands? stack = some (left, right, below) ∧
      now.registries.operators.find? token.text = some op ∧
      op.function (job.draws token.handle) [left, right] = .ok value ∧ stack' = value :: below
  | .call => ∃ function args meaning values value,
      now.registries.functions.find? token.text = some function ∧
      now.sheet.args? token.handle = some args ∧ inner = some meaning ∧
      Values meaning args values ∧ function (job.draws token.handle) values = .ok value ∧
      stack' = value :: stack
  | .openBracket | .closeBracket | .separator | .other _ => False

/-- What one token after another does to the stack. -/
def Runs : List Token → List Float → List Float → Prop
  | [], stack, stack' => stack' = stack
  | token :: rest, stack, stack' =>
    ∃ between, Does job now inner token stack between ∧ Runs rest between stack'

/-- What a listing evaluates to with a number of levels of calls left. -/
def Evaluates : Nat → Meaning
  | 0, list, value => Runs job now none (job.mode.scanOrder list) [] [value]
  | levels + 1, list, value =>
    Runs job now (some (Evaluates levels)) (job.mode.scanOrder list) [] [value]

/-- What arguments mean with a number of levels of calls left. -/
def deeper : Nat → Option Meaning
  | 0 => none
  | levels + 1 => some (Evaluates job now levels)

end

variable {job : Job} {now : Surroundings} {inner : Option Meaning} {frame : Frame}

theorem evaluates_iff {levels : Nat} {list : List Token} {value : Float} :
    Evaluates job now levels list value ↔
      Runs job now (deeper job now levels) (job.mode.scanOrder list) [] [value] := by
  cases levels <;> rfl

theorem runs_append {xs ys : List Token} {stack stack' : List Float} :
    Runs job now inner (xs ++ ys) stack stack' ↔
      ∃ between, Runs job now inner xs stack between ∧ Runs job now inner ys between stack' := by
  induction xs generalizing stack with
  | nil => simp [Runs]
  | cons t xs ih =>
    simp only [List.cons_append, Runs, ih]
    constructor
    · rintro ⟨u, hu, v, hv, h⟩
      exact ⟨v, ⟨u, hu, hv⟩, h⟩
    · rintro ⟨v, ⟨u, hu, hv⟩, h⟩
      exact ⟨u, hu, v, hv, h⟩

theorem runs_singleton {t : Token} {stack stack' : List Float} :
    Runs job now inner [t] stack stack' ↔ Does job now inner t stack stack' := by
  simp [Runs]

/-- Of a run, each token did something. -/
theorem Runs.does {ts : List Token} {stack stack' : List Float}
    (h : Runs job now inner ts stack stack') :
    ∀ t ∈ ts, ∃ before after, Does job now inner t before after := by
  induction ts generalizing stack with
  | nil => exact List.forall_mem_nil _
  | cons token rest ih =>
    obtain ⟨between, hdoes, hrest⟩ := h
    exact List.forall_mem_cons.2 ⟨⟨_, _, hdoes⟩, ih hrest⟩

/-- Each of several arguments has a value. -/
theorem Values.exists {meaning : Meaning} {args : List (List Token)} {values : List Float}
    (h : Values meaning args values) : ∀ arg ∈ args, ∃ value, meaning arg value := by
  induction args generalizing values with
  | nil => exact List.forall_mem_nil _
  | cons list rest ih =>
    obtain ⟨value, others, -, hlist, hrest⟩ := h
    exact List.forall_mem_cons.2 ⟨⟨value, hlist⟩, ih hrest⟩

/-- **Where a listing has a value**, the arguments of its calls have values one level down. -/
theorem Evaluates.arguments {levels : Nat} {list : List Token} {value : Float}
    (h : Evaluates job now levels list value) {t : Token} (ht : t ∈ list) (hk : t.kind = .call) :
    ∃ inside args, levels = inside + 1 ∧ now.sheet.args? t.handle = some args ∧
      ∀ arg ∈ args, ∃ value, Evaluates job now inside arg value := by
  obtain ⟨before, after, hdoes⟩ :=
    (evaluates_iff.1 h).does t ((job.mode.scanOrder_perm list).mem_iff.2 ht)
  rw [Does, hk] at hdoes
  obtain ⟨-, args, meaning, values, -, -, hargs, hmeaning, hvalues, -⟩ := hdoes
  cases levels with
  | zero => cases hmeaning
  | succ inside =>
    obtain rfl := Option.some.inj hmeaning
    exact ⟨inside, args, rfl, hargs, hvalues.exists⟩

/-! ## From computations to what they do -/

namespace Job

@[simp] theorem stop_eager {α : Type} {cause : EvalCause} {token : Option Token}
    {stack : List Float} {a : α} :
    (job.stop cause token stack : Run α).eager now = .ok a ↔ False := by
  simp [stop]

theorem apply_ok {function : Function} {args : List Float} {token : Token} {stack : List Float}
    {value : Float} :
    (job.apply function args token stack).eager now = .ok value ↔
      function (job.draws token.handle) args = .ok value := by
  rw [apply]
  cases function (job.draws token.handle) args with
  | ok v => simp
  | error reason => simp

variable {token : Token} {index : Nat} {stack stack' : List Float}

theorem number_ok : (job.number frame token index stack).eager now = .ok stack' ↔
    ∃ value, Literal.read? token.text = some value ∧ stack' = value :: stack := by
  rw [number]
  cases Literal.read? token.text with
  | none => simp
  | some v => simp [pushValue, eq_comm]

theorem constant_ok : (job.constant frame token index stack).eager now = .ok stack' ↔
    ∃ value, now.registries.constants.find? token.text = some value ∧
      stack' = value :: stack := by
  rw [constant, Stepwise.eager_look]
  cases now.registries.constants.find? token.text with
  | none => simp
  | some v => simp [pushValue, eq_comm]

theorem operator_ok : (job.operator frame token index stack).eager now = .ok stack' ↔
    ∃ left right below op value, job.operands? stack = some (left, right, below) ∧
      now.registries.operators.find? token.text = some op ∧
      op.function (job.draws token.handle) [left, right] = .ok value ∧
      stack' = value :: below := by
  rw [operator]
  cases job.operands? stack with
  | none => simp
  | some found =>
    obtain ⟨left, right, below⟩ := found
    simp only [Stepwise.eager_look]
    cases now.registries.operators.find? token.text with
    | none => simp
    | some op =>
      simp only [Stepwise.bind_eq, eager_bind_ok, apply_ok, Stepwise.eager_emit,
        Stepwise.eager_answer, ok_eq_ok, Option.some.injEq, Prod.mk.injEq]
      constructor
      · rintro ⟨v, hv, rfl⟩
        exact ⟨left, right, below, op, v, ⟨rfl, rfl, rfl⟩, rfl, hv, rfl⟩
      · rintro ⟨_, _, _, _, v, ⟨rfl, rfl, rfl⟩, rfl, hv, rfl⟩
        exact ⟨v, hv, rfl⟩

theorem argumentValues_ok {argument : List Token → Run Float} {meaning : Meaning}
    (h : ∀ list value, (argument list).eager now = .ok value ↔ meaning list value)
    {args : List (List Token)} {values : List Float} :
    (argumentValues argument args).eager now = .ok values ↔ Values meaning args values := by
  induction args generalizing values with
  | nil => simp [argumentValues, Values, eq_comm]
  | cons list rest ih =>
    simp only [argumentValues, Stepwise.bind_eq, Stepwise.pure_eq, eager_bind_ok, h, ih,
      Stepwise.eager_answer, ok_eq_ok, Values]
    constructor
    · rintro ⟨v, hv, vs, hvs, rfl⟩
      exact ⟨v, vs, rfl, hv, hvs⟩
    · rintro ⟨v, vs, rfl, hv, hvs⟩
      exact ⟨v, hv, vs, hvs, rfl⟩

/-- A way to evaluate arguments comes to a meaning of arguments. -/
def Serves (now : Surroundings) : Option Argument → Option Meaning → Prop
  | none, none => True
  | some argument, some meaning =>
    ∀ caller list value, (argument caller list).eager now = .ok value ↔ meaning list value
  | _, _ => False

theorem call_ok {deeper : Option Argument} (h : Serves now deeper inner) :
    (job.call frame deeper token index stack).eager now = .ok stack' ↔
      ∃ function args meaning values value,
        now.registries.functions.find? token.text = some function ∧
        now.sheet.args? token.handle = some args ∧ inner = some meaning ∧
        Values meaning args values ∧ function (job.draws token.handle) values = .ok value ∧
        stack' = value :: stack := by
  rw [call, Stepwise.eager_look]
  cases now.registries.functions.find? token.text with
  | none => simp
  | some function =>
    cases now.sheet.args? token.handle with
    | none => simp
    | some args =>
      cases deeper with
      | none =>
        cases inner with
        | none => simp
        | some meaning => cases h
      | some argument =>
        cases inner with
        | none => cases h
        | some meaning =>
          simp [Stepwise.bind_eq, eager_bind_ok, apply_ok, argumentValues_ok (h token),
            eq_comm (a := stack')]

/-- What is done for a single token. -/
def single (job : Job) (frame : Frame) (deeper : Option Argument) (token : Token) (index : Nat)
    (stack : List Float) : Run (List Float) :=
  match token.kind with
  | .number => job.number frame token index stack
  | .constant => job.constant frame token index stack
  | .call => job.call frame deeper token index stack
  | .operator => job.operator frame token index stack
  | .openBracket | .closeBracket | .separator | .other _ =>
    job.stop (.unexpectedToken token.text) (some token) stack

theorem tokens_cons {deeper : Option Argument} {rest : List (Token × Nat)} :
    job.tokens frame deeper ((token, index) :: rest) stack
      = (job.single frame deeper token index stack).bind fun s =>
          job.tokens frame deeper rest s := by
  rw [tokens, single]
  cases token.kind <;> rfl

theorem single_ok {deeper : Option Argument} (h : Serves now deeper inner) :
    (job.single frame deeper token index stack).eager now = .ok stack' ↔
      Does job now inner token stack stack' := by
  rw [single, Does]
  cases hk : token.kind with
  | number => exact number_ok
  | constant => exact constant_ok
  | operator => exact operator_ok
  | call => exact call_ok h
  | openBracket | closeBracket | separator | other => exact stop_eager

theorem tokens_ok {deeper : Option Argument} (h : Serves now deeper inner)
    {list : List (Token × Nat)} :
    (job.tokens frame deeper list stack).eager now = .ok stack' ↔
      Runs job now inner (list.map Prod.fst) stack stack' := by
  induction list generalizing stack with
  | nil => simp [tokens, Runs, eq_comm]
  | cons entry rest ih =>
    obtain ⟨t, i⟩ := entry
    simp only [tokens_cons, eager_bind_ok, single_ok h, ih, List.map_cons, Runs]

theorem listing_ok {deeper : Option Argument} (h : Serves now deeper inner) {list : List Token}
    {value : Float} :
    (job.listing frame deeper list).eager now = .ok value ↔
      Runs job now inner (job.mode.scanOrder list) [] [value] := by
  have hmap : (job.mode.scanOrder list.zipIdx).map Prod.fst = job.mode.scanOrder list := by
    cases job.mode with
    | rpn => simp [Mode.scanOrder]
    | pn => simp [Mode.scanOrder]
  simp only [listing, Stepwise.bind_eq, eager_bind_ok, tokens_ok h, hmap]
  constructor
  · rintro ⟨stack, hrun, hone⟩
    split at hone
    · next v =>
      rw [Stepwise.pure_eq, Stepwise.eager_answer, Except.ok.injEq] at hone
      rwa [hone] at hrun
    · simp at hone
  · exact fun hrun => ⟨_, hrun, rfl⟩

/-- **What an evaluation needs and what it gives.** -/
theorem evaluate_ok_iff {levels : Nat} {list : List Token} {value : Float} :
    (job.evaluate levels frame list).eager now = .ok value ↔
      Evaluates job now levels list value := by
  induction levels generalizing frame list value with
  | zero =>
    have hserves : Serves now none none := trivial
    exact listing_ok hserves
  | succ levels ih =>
    rw [evaluate]
    refine listing_ok (show Serves now (some _) (some (Evaluates job now levels)) from ?_)
    exact fun caller list value => ih

theorem run_ok {list : List Token} {value : Float} :
    (job.run list).eager now = .ok value ↔
      Evaluates job now job.limits.callDepth.toNat list value := by
  simp [run, Stepwise.bind_eq, eager_bind_ok, evaluate_ok_iff]

end Job

end Polish.Evaluate
