import Polish.Proofs.Evaluate.Nested

/-!
# The steps of an evaluation are those of a stack machine

`Plays` says of steps that they are those of a machine that takes the tokens of a listing one after
another and works on a stack.  What a single token does is `Acts`: a value is pushed, an operator
replaces two values by one, and a call pushes what its function makes of its arguments, whose steps
come first, one block after another.  `Halts` says why a token can do nothing, and what there is to
see of it.

* `Job.run_shows` — the steps of a whole evaluation;
* `Plays.noResult` — the result is not among the steps of the tokens.

## How the proof goes

`Shows` says what steps a computation may leave behind, when it answers and when it fails, and a
computation made of two parts shows the steps of both (`shows_bind`).  So there is one lemma for
each operation of the evaluator, and `run_shows` is an induction on the tokens.

The machine is given by what a token can do and not by what it cannot: a token is stuck if there are
no steps with which it acts.  For that to be true of a token that fails, it has to be known that a
token which acts does not fail, and this is `Acts.eager`.
-/

set_option autoImplicit false

namespace Polish.Evaluate

open Stepwise (Shows)

namespace Job

/-! ## The machine -/

section

variable (job : Job) (now : Surroundings)

/-- A stack with two operands on top.  The newer one is the right one where listings are read from
the left, and the left one where they are read from the right. -/
def stacked (left right : Float) (below : List Float) : List Float :=
  match job.mode with
  | .rpn => right :: left :: below
  | .pn => left :: right :: below

/-- The values of several listings, each evaluated on its own. -/
def OwnValues (lists : List (List Token)) (values : List Float) : Prop :=
  Values (fun list value => (job.run list).eager now = .ok value) lists values

/-- What a token does to the stack, and the steps of that. -/
inductive Acts (token : Token) (index : Nat) : List Float → List Step → List Float → Prop
  | number {stack : List Float} {value : Float} (hkind : token.kind = .number)
    (hvalue : Literal.read? token.text = some value) :
    Acts token index stack [⟨.insertValue, token, index, value :: stack, value, false, none⟩]
      (value :: stack)
  | constant {stack : List Float} {value : Float} (hkind : token.kind = .constant)
    (hvalue : now.registries.constants.find? token.text = some value) :
    Acts token index stack [⟨.insertValue, token, index, value :: stack, value, false, none⟩]
      (value :: stack)
  | operation {below : List Float} {left right value : Float} {operator : Operator}
    (hkind : token.kind = .operator)
    (hoperator : now.registries.operators.find? token.text = some operator)
    (hvalue : operator.function (job.draws token.handle) [left, right] = .ok value) :
    Acts token index (job.stacked left right below)
      [⟨.operation, token, index, value :: below, value, false, some (left, right)⟩]
      (value :: below)
  | call {stack values : List Float} {args : List (List Token)} {value : Float}
    {function : Function} (hkind : token.kind = .call)
    (hfunction : now.registries.functions.find? token.text = some function)
    (hargs : now.sheet.args? token.handle = some args) (hvalues : job.OwnValues now args values)
    (hvalue : function (job.draws token.handle) values = .ok value) :
    Acts token index stack
      (args.flatMap (job.block now token) ++
        [⟨.updateStack, token, index, stack, 0, false, none⟩,
          ⟨.call, token, index, value :: stack, value, false, none⟩])
      (value :: stack)

end

/-- Why a token can do nothing, and the steps that there are nevertheless. -/
inductive Halts (job : Job) (now : Surroundings) (token : Token) (index : Nat)
    (stack : List Float) : List Step → Prop
  /-- A token that is no call finds something missing. -/
  | stuck (hkind : token.kind ≠ .call)
    (hstuck : ∀ steps stack', ¬ job.Acts now token index stack steps stack') :
    Halts job now token index stack []
  /-- A call does not begin. -/
  | refused (hkind : token.kind = .call)
    (hmissing : now.registries.functions.find? token.text = none ∨
      now.sheet.args? token.handle = none ∨ job.limits.callDepth ≤ 0) :
    Halts job now token index stack []
  /-- One of the arguments of a call fails. -/
  | argument {done rest : List (List Token)} {list : List Token} {values : List Float}
    {shown : List Step} {failure : Failure} (hkind : token.kind = .call)
    (hargs : now.sheet.args? token.handle = some (done ++ list :: rest))
    (hdone : job.OwnValues now done values)
    (hfails : (job.inner token list).eager now = .error failure)
    (hshown : shown <+: job.aside now list) :
    Halts job now token index stack
      (done.flatMap (job.block now token) ++ opening token :: shown)
  /-- The function of a call fails. -/
  | function {args : List (List Token)} {values : List Float} {function : Function}
    {reason : Fault} (hkind : token.kind = .call)
    (hfunction : now.registries.functions.find? token.text = some function)
    (hargs : now.sheet.args? token.handle = some args) (hvalues : job.OwnValues now args values)
    (hfails : function (job.draws token.handle) values = .error reason) :
    Halts job now token index stack
      (args.flatMap (job.block now token) ++
        [⟨.updateStack, token, index, stack, 0, false, none⟩])

/-- The steps of one token after another, and the stack in the end if none fails. -/
inductive Plays (job : Job) (now : Surroundings) :
    List (Token × Nat) → List Float → List Step → Option (List Float) → Prop
  | nil (stack : List Float) : Plays job now [] stack [] (some stack)
  | cons {token : Token} {index : Nat} {list : List (Token × Nat)} {stack stack' : List Float}
    {steps rest : List Step} {out : Option (List Float)}
    (hacts : job.Acts now token index stack steps stack')
    (hrest : Plays job now list stack' rest out) :
    Plays job now ((token, index) :: list) stack (steps ++ rest) out
  | halt {token : Token} {index : Nat} {list : List (Token × Nat)} {stack : List Float}
    {steps : List Step} (hhalts : job.Halts now token index stack steps) :
    Plays job now ((token, index) :: list) stack steps none

variable {job : Job} {now : Surroundings} {token : Token} {index : Nat} {stack : List Float}

theorem operands?_stacked {left right : Float} {below : List Float} :
    job.operands? (job.stacked left right below) = some (left, right, below) := by
  rw [stacked]
  cases hmode : job.mode <;> simp [operands?, hmode]

theorem eq_stacked {left right : Float} {below : List Float}
    (h : job.operands? stack = some (left, right, below)) :
    stack = job.stacked left right below := by
  rcases stack with _ | ⟨newest, _ | ⟨older, rest⟩⟩
  · cases h
  · cases h
  · rw [operands?] at h
    rw [stacked]
    cases hmode : job.mode <;> rw [hmode] at h <;> cases h <;> rfl

/-! ## No result on the way -/

section

variable {steps : List Step}

theorem aside_noResult {list : List Token} {step : Step} (h : step ∈ job.aside now list) :
    step.move ≠ .result := by
  obtain ⟨shown, hshown, rfl⟩ := List.mem_map.1 h
  exact of_decide_eq_true (List.mem_filter.1 hshown).2

theorem blocks_noResult {caller : Token} {lists : List (List Token)} {step : Step}
    (h : step ∈ lists.flatMap (job.block now caller)) : step.move ≠ .result := by
  obtain ⟨list, -, hstep⟩ := List.mem_flatMap.1 h
  rcases List.mem_cons.1 hstep with rfl | hstep
  · simp [opening]
  · exact aside_noResult hstep

theorem Acts.noResult {stack' : List Float} (h : job.Acts now token index stack steps stack') :
    ∀ step ∈ steps, step.move ≠ .result := by
  cases h with
  | number | constant | operation => simp
  | call => exact List.forall_mem_append.2 ⟨fun step => blocks_noResult, by simp⟩

theorem Halts.noResult (h : job.Halts now token index stack steps) :
    ∀ step ∈ steps, step.move ≠ .result := by
  cases h with
  | stuck | refused => exact List.forall_mem_nil _
  | argument _ _ _ _ hshown =>
    refine List.forall_mem_append.2 ⟨fun step => blocks_noResult, ?_⟩
    refine List.forall_mem_cons.2 ⟨by simp [opening], ?_⟩
    exact fun step hstep => aside_noResult (hshown.subset hstep)
  | function => exact List.forall_mem_append.2 ⟨fun step => blocks_noResult, by simp⟩

/-- The result is not among the steps of the tokens. -/
theorem Plays.noResult {list : List (Token × Nat)} {out : Option (List Float)}
    (h : job.Plays now list stack steps out) : ∀ step ∈ steps, step.move ≠ .result := by
  induction h with
  | nil => exact List.forall_mem_nil _
  | cons hacts _ ih => exact List.forall_mem_append.2 ⟨hacts.noResult, ih⟩
  | halt hhalts => exact hhalts.noResult

end

/-! ## Evaluations play the machine -/

theorem apply_shows {function : Function} {args : List Float} {ended : List Step → Float → Prop}
    {failed : List Step → Prop}
    (hended : ∀ value, function (job.draws token.handle) args = .ok value → ended [] value)
    (hfailed : ∀ reason, function (job.draws token.handle) args = .error reason → failed []) :
    Shows now (job.apply function args token stack) ended failed := by
  rw [apply]
  cases hvalue : function (job.draws token.handle) args with
  | ok value => exact hended value hvalue
  | error reason => exact hfailed reason hvalue

theorem argumentValues_shows (caller : Token) (args : List (List Token)) :
    Shows now (argumentValues (fun list => .emit (opening caller) (job.inner caller list)) args)
      (fun steps values => job.OwnValues now args values ∧
        steps = args.flatMap (job.block now caller))
      (fun steps => ∃ done list rest values shown failure, args = done ++ list :: rest ∧
        job.OwnValues now done values ∧ (job.inner caller list).eager now = .error failure ∧
        shown <+: job.aside now list ∧
        steps = done.flatMap (job.block now caller) ++ opening caller :: shown) := by
  induction args with
  | nil => exact ⟨rfl, rfl⟩
  | cons list rest ih =>
    refine Stepwise.shows_bind.2 (Stepwise.shows_emit.2 ?_)
    refine (inner_shows caller list).failing.mono ?_ ?_
    · rintro _ value ⟨hvalue, rfl⟩
      refine Stepwise.shows_bind.2 (ih.mono ?_ ?_)
      · rintro _ values ⟨hvalues, rfl⟩
        refine Stepwise.shows_answer.2 ⟨⟨value, values, rfl, hvalue, hvalues⟩, ?_⟩
        rw [List.append_nil, List.flatMap_cons, block]
      · rintro _ ⟨done, failing, after, values, shown, failure, rfl, hdone, hfails, hshown, rfl⟩
        refine ⟨list :: done, failing, after, value :: values, shown, failure, rfl,
          ⟨value, values, rfl, hvalue, hdone⟩, hfails, hshown, ?_⟩
        rw [List.flatMap_cons, List.append_assoc, block]
    · rintro shown ⟨⟨failure, hfails⟩, hshown⟩
      exact ⟨[], list, rest, [], shown, failure, rfl, rfl, hfails, hshown, rfl⟩

theorem call_shows (hkind : token.kind = .call) :
    Shows now (job.call ⟨0, none⟩ job.outermost token index stack)
      (job.Acts now token index stack) (job.Halts now token index stack) := by
  refine Stepwise.shows_look.2 ?_
  cases hfunction : now.registries.functions.find? token.text with
  | none => exact Stepwise.shows_fail.2 (.refused hkind (.inl hfunction))
  | some function =>
    dsimp only
    cases hargs : now.sheet.args? token.handle with
    | none => exact Stepwise.shows_fail.2 (.refused hkind (.inr (.inl hargs)))
    | some args =>
      dsimp only
      by_cases hdepth : job.limits.callDepth ≤ 0
      · rw [outermost, if_pos hdepth]
        exact Stepwise.shows_fail.2 (.refused hkind (.inr (.inr hdepth)))
      · rw [outermost, if_neg hdepth]
        refine Stepwise.shows_bind.2 ((argumentValues_shows token args).mono ?_ ?_)
        · rintro _ values ⟨hvalues, rfl⟩
          refine Stepwise.shows_emit.2 (Stepwise.shows_bind.2 (Stepwise.shows_answer.2 ?_))
          refine Stepwise.shows_bind.2 (apply_shows ?_ fun reason hfails => ?_)
          · intro value hvalue
            exact Stepwise.shows_emit.2 (Stepwise.shows_answer.2
              (.call hkind hfunction hargs hvalues hvalue))
          · exact .function hkind hfunction hargs hvalues hfails
        · rintro _ ⟨done, list, rest, values, shown, failure, rfl, hdone, hfails, hshown, rfl⟩
          exact .argument hkind hargs hdone hfails hshown

/-- A token that is no call shows nothing if it fails. -/
theorem plain_shows (hcall : token.kind ≠ .call) :
    Shows now (job.single ⟨0, none⟩ job.outermost token index stack)
      (job.Acts now token index stack) (fun steps => steps = []) := by
  rw [single]
  cases hkind : token.kind with
  | number =>
    dsimp only [number]
    cases hvalue : Literal.read? token.text with
    | none => exact Stepwise.shows_fail.2 rfl
    | some value =>
      exact Stepwise.shows_emit.2 (Stepwise.shows_answer.2 (.number hkind hvalue))
  | constant =>
    refine Stepwise.shows_look.2 ?_
    cases hvalue : now.registries.constants.find? token.text with
    | none => exact Stepwise.shows_fail.2 rfl
    | some value =>
      exact Stepwise.shows_emit.2 (Stepwise.shows_answer.2 (.constant hkind hvalue))
  | operator =>
    dsimp only [operator]
    cases hfound : job.operands? stack with
    | none => exact Stepwise.shows_fail.2 rfl
    | some found =>
      obtain ⟨left, right, below⟩ := found
      refine Stepwise.shows_look.2 ?_
      cases hoperator : now.registries.operators.find? token.text with
      | none => exact Stepwise.shows_fail.2 rfl
      | some op =>
        refine Stepwise.shows_bind.2 (apply_shows (fun value hvalue => ?_) fun _ _ => rfl)
        rw [eq_stacked hfound]
        exact Stepwise.shows_emit.2 (Stepwise.shows_answer.2 (.operation hkind hoperator hvalue))
  | call => exact absurd hkind hcall
  | openBracket | closeBracket | separator | other => exact Stepwise.shows_fail.2 rfl

/-- A token that is no call does what it can do. -/
theorem Acts.eager {steps : List Step} {stack' : List Float}
    (h : job.Acts now token index stack steps stack') (hcall : token.kind ≠ .call) :
    (job.single ⟨0, none⟩ job.outermost token index stack).eager now = .ok stack' := by
  cases h with
  | number hkind hvalue =>
    rw [single, hkind]
    exact number_ok.2 ⟨_, hvalue, rfl⟩
  | constant hkind hvalue =>
    rw [single, hkind]
    exact constant_ok.2 ⟨_, hvalue, rfl⟩
  | operation hkind hoperator hvalue =>
    rw [single, hkind]
    exact operator_ok.2 ⟨_, _, _, _, _, operands?_stacked, hoperator, hvalue, rfl⟩
  | call hkind => exact absurd hkind hcall

/-- What is done for a single token is what the machine does for it. -/
theorem single_shows :
    Shows now (job.single ⟨0, none⟩ job.outermost token index stack)
      (job.Acts now token index stack) (job.Halts now token index stack) := by
  by_cases hcall : token.kind = .call
  · rw [single, hcall]
    exact call_shows hcall
  · refine (plain_shows hcall).failing.mono (fun _ _ hacts => hacts) ?_
    rintro _ ⟨⟨failure, hfails⟩, rfl⟩
    refine .stuck hcall fun steps stack' hacts => ?_
    rw [hacts.eager hcall] at hfails
    cases hfails

theorem tokens_shows (list : List (Token × Nat)) (stack : List Float) :
    Shows now (job.tokens ⟨0, none⟩ job.outermost list stack)
      (fun steps stack' => job.Plays now list stack steps (some stack'))
      (fun steps => job.Plays now list stack steps none) := by
  induction list generalizing stack with
  | nil => exact Plays.nil stack
  | cons entry rest ih =>
    obtain ⟨token, index⟩ := entry
    rw [tokens_cons]
    refine Stepwise.shows_bind.2 (single_shows.mono (fun steps stack' hacts => ?_) ?_)
    · exact (ih stack').mono (fun _ _ => .cons hacts) fun _ => .cons hacts
    · exact fun steps => .halt

variable (job now) in
/-- **The steps of a whole evaluation** are those of the machine, and one more if it succeeds. -/
theorem run_shows (list : List Token) :
    Shows now (job.run list)
      (fun steps value => ∃ before,
        steps = before ++ [⟨.result, none, list.length, [value], value, false, none⟩] ∧
        job.Plays now (job.mode.scanOrder list.zipIdx) [] before (some [value]))
      (fun steps => ∃ out, job.Plays now (job.mode.scanOrder list.zipIdx) [] steps out ∧
        ∀ value, out ≠ some [value]) := by
  rw [run, evaluate_outermost]
  refine Stepwise.shows_bind.2 (Stepwise.shows_bind.2 ((tokens_shows _ []).mono ?_ ?_))
  · intro steps stack hplays
    split
    · rw [Stepwise.pure_eq, Stepwise.shows_answer, List.append_nil]
      exact Stepwise.shows_emit.2 ⟨steps, rfl, hplays⟩
    · next hone =>
      rw [stop, Stepwise.shows_fail, List.append_nil]
      exact ⟨_, hplays, fun value hvalue => hone value (Option.some.inj hvalue)⟩
  · exact fun steps hplays => ⟨none, hplays, fun value h => by cases h⟩

end Job

end Polish.Evaluate
