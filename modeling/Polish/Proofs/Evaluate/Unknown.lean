import Mathlib.Data.List.Perm.Basic
import Polish.Proofs.Compile.Flatten
import Polish.Proofs.Evaluate.Expression

/-!
# Unknown names

Whether all names in a token list are known is found out before the list is evaluated, by a look at
one token after another.  An evaluation comes to the same tokens on other ways: operators have moved
to other places, arguments are found on the sheet, and it may stop before it gets to a name.

* `Sheet.reached` — the tokens in the order in which an evaluation gets to them; if operators are
  last this is the flattened listing, and otherwise a permutation of it;
* `Meets` — a computation that gets to some tokens does not answer unless all their names are known,
  and if it fails over a name, it is the first one that is not known;
* `Engine.evaluateListing_unknown` — the look at the tokens says what an evaluation will find.

## How the proof goes

`Meets` composes as a computation does: if the first part fails over a name, this is the first
unknown name of the whole, and if it answers, then its tokens are all known and the second part
decides (`Meets.bind`).  A token without a name may be left out, and so may whatever comes after a
computation that gets to no more tokens (`bind_nil`).

So the lemma for the evaluator follows its recursion on the levels of calls.  `Sheet.reached` takes
the same way, to a depth that is large enough, and the compiler has a theorem about that depth: the
flattened listing has all the tokens in the order of the source.
-/

set_option autoImplicit false

namespace Polish

/-! ## Failures over names -/

/-- Why a token that names nothing registered has no value. -/
def EvalCause.ofUnknown (t : Token) : EvalCause :=
  if t.kind = .call then .unknownFunction t.text else .unknownConstant t.text

namespace Failure

/-- An evaluation came to a name that is not known. -/
def overName : Failure → Bool
  | .eval ⟨.unknownConstant _, _, _, _⟩ | .eval ⟨.unknownFunction _, _, _, _⟩ => true
  | _ => false

/-- The failure is that a token names nothing registered. -/
def Misses (failure : Failure) (t : Token) : Prop :=
  ∃ stack source, failure = .eval ⟨.ofUnknown t, some t, stack, source⟩

end Failure

namespace Registries

variable {r : Registries} {t : Token} {xs ys : List Token}

theorem knows_constant (h : t.kind = .constant) :
    r.knows t = (r.constants.find? t.text).isSome := by
  rw [knows, h]
  rfl

theorem knows_call (h : t.kind = .call) : r.knows t = (r.functions.find? t.text).isSome := by
  rw [knows, h]
  rfl

theorem firstUnknown?_cons (h : r.knows t = true) :
    r.firstUnknown? (t :: xs) = r.firstUnknown? xs := by
  simp [firstUnknown?, h]

theorem firstUnknown?_cons_of_not (h : r.knows t = false) : r.firstUnknown? (t :: xs) = some t := by
  simp [firstUnknown?, h]

theorem firstUnknown?_append :
    r.firstUnknown? (xs ++ ys) = (r.firstUnknown? xs).or (r.firstUnknown? ys) :=
  List.find?_append

/-- Only values and calls have names. -/
theorem firstUnknown?_filter :
    r.firstUnknown? (xs.filter (·.kind.isOperand)) = r.firstUnknown? xs := by
  rw [firstUnknown?, firstUnknown?, List.find?_filter]
  congr 1
  funext t
  cases hk : t.kind <;> simp [knows, hk, Kind.isOperand]

theorem mem_of_firstUnknown? (h : r.firstUnknown? xs = some t) : t ∈ xs ∧ r.knows t = false :=
  ⟨List.mem_of_find?_eq_some h, by simpa using List.find?_some h⟩

/-- The order of the tokens matters for which one is the first, but not for whether there is one. -/
theorem firstUnknown?_perm (h : xs.Perm ys) :
    r.firstUnknown? xs = none ↔ r.firstUnknown? ys = none := by
  rw [firstUnknown?_eq_none_iff, firstUnknown?_eq_none_iff]
  exact ⟨fun hx t ht => hx t (h.mem_iff.2 ht), fun hy t ht => hy t (h.mem_iff.1 ht)⟩

end Registries

/-! ## The way of an evaluation -/

namespace Sheet

/-- What an evaluation gets to inside a token: the arguments of a call, one after another. -/
def opened (s : Sheet) (m : Mode) : Nat → Token → List Token
  | 0, _ => []
  | depth + 1, token =>
    if token.kind = .call then
      ((s.args? token.handle).getD []).flatMap fun arg =>
        (m.scanOrder arg).flatMap fun token => token :: s.opened m depth token
    else []

/-- Tokens in the order in which an evaluation gets to them, down to a given depth. -/
def reached (s : Sheet) (m : Mode) (depth : Nat) (tokens : List Token) : List Token :=
  (m.scanOrder tokens).flatMap fun token => token :: s.opened m depth token

variable {s : Sheet} {m : Mode} {depth : Nat}

theorem opened_of_ne {t : Token} (h : t.kind ≠ .call) : s.opened m depth t = [] := by
  cases depth with
  | zero => rfl
  | succ depth => rw [opened, if_neg h]

theorem opened_call {t : Token} {args : List (List Token)} (h : t.kind = .call)
    (hargs : s.args? t.handle = some args) :
    s.opened m (depth + 1) t = args.flatMap (s.reached m depth) := by
  rw [opened, if_pos h, hargs]
  rfl

/-- With the operators last, the way is that of the flattened listing. -/
theorem reached_rpn (tokens : List Token) : s.reached .rpn depth tokens = s.flat depth tokens := by
  have hopened (depth : Nat) : s.opened .rpn depth = s.inside depth := by
    induction depth with
    | zero => rfl
    | succ depth ih =>
      funext t
      rw [opened, inside, ih]
      rfl
  rw [reached, hopened]
  rfl

/-- In both notations the tokens are those of the flattened listing. -/
theorem reached_perm (tokens : List Token) :
    (s.reached m depth tokens).Perm (s.flat depth tokens) := by
  have hopened (depth : Nat) (t : Token) : (s.opened m depth t).Perm (s.inside depth t) := by
    induction depth generalizing t with
    | zero => exact .refl _
    | succ depth ih =>
      rw [opened, inside]
      split
      · exact .flatMap (.refl _) fun arg _ =>
          (m.scanOrder_perm arg).flatMap fun u _ => (ih u).cons u
      · exact .refl _
  exact (m.scanOrder_perm tokens).flatMap fun t _ => (hopened depth t).cons t

end Sheet

namespace Evaluate

variable {α β : Type} {job : Job} {now : Surroundings} {xs ys met : List Token}

/-- A computation that gets to these tokens: if it answers, all names are known, and if it fails
over a name, it is the first one that is not known. -/
def Meets (now : Surroundings) (met : List Token) (c : Run α) : Prop :=
  match c.eager now with
  | .ok _ => now.registries.firstUnknown? met = none
  | .error failure => failure.overName = true →
      ∃ t, now.registries.firstUnknown? met = some t ∧ failure.Misses t

namespace Meets

theorem answer {a : α} : Meets now [] (.answer a : Run α) := rfl

theorem fail {failure : Failure} (h : failure.overName = false) :
    Meets now met (.fail failure : Run α) := by
  intro hover
  rw [h] at hover
  cases hover

theorem stop {cause : EvalCause} {token : Option Token} {stack : List Float}
    (h : ∀ token stack source, (Failure.eval ⟨cause, token, stack, source⟩).overName = false) :
    Meets now met (job.stop cause token stack : Run α) := fail (h _ _ _)

theorem look {next : Surroundings → Run α} (h : Meets now met (next now)) :
    Meets now met (.look next) := h

theorem emit {step : Step} {c : Run α} (h : Meets now met c) : Meets now met (.emit step c) := h

/-- A token whose name is known may be left out. -/
theorem cons {t : Token} {c : Run α} (ht : now.registries.knows t = true) (h : Meets now met c) :
    Meets now (t :: met) c := by
  rw [Meets, Registries.firstUnknown?_cons ht]
  exact h

/-- A computation in two parts gets to the tokens of the first one first. -/
theorem bind {c : Run α} {f : α → Run β} (hc : Meets now xs c) (hf : ∀ a, Meets now ys (f a)) :
    Meets now (xs ++ ys) (c.bind f) := by
  unfold Meets at hc hf ⊢
  rw [Stepwise.eager_bind, Registries.firstUnknown?_append]
  cases h : c.eager now with
  | error failure =>
    rw [h] at hc
    intro hover
    obtain ⟨t, ht, hmiss⟩ := hc hover
    exact ⟨t, by rw [ht, Option.some_or], hmiss⟩
  | ok a =>
    rw [h] at hc
    rw [show now.registries.firstUnknown? xs = none from hc, Option.none_or]
    exact hf a

/-- A part that gets to no tokens may come last. -/
theorem bind_nil {c : Run α} {f : α → Run β} (hc : Meets now xs c) (hf : ∀ a, Meets now [] (f a)) :
    Meets now xs (c.bind f) := by
  simpa using hc.bind hf

/-! ### Single tokens -/

variable {frame : Frame} {deeper : Option Job.Argument} {token : Token} {index : Nat}
  {stack : List Float} {m : Mode} {depth : Nat}

theorem apply (function : Function) (args : List Float) (token : Token) (stack : List Float) :
    Meets now [] (job.apply function args token stack) := by
  rw [Job.apply]
  cases function (job.draws token.handle) args with
  | ok value => exact answer
  | error reason => exact stop fun _ _ _ => rfl

theorem number : Meets now [] (job.number frame token index stack) := by
  rw [Job.number]
  cases Literal.read? token.text with
  | none => exact stop fun _ _ _ => rfl
  | some value => exact emit answer

theorem constant (hk : token.kind = .constant) :
    Meets now [token] (job.constant frame token index stack) := by
  refine look ?_
  have hknows := now.registries.knows_constant hk
  cases hfind : now.registries.constants.find? token.text with rw [hfind] at hknows
  | none =>
    refine fun _ => ⟨token, Registries.firstUnknown?_cons_of_not hknows, stack, job.source, ?_⟩
    rw [EvalCause.ofUnknown, if_neg (by simp [hk])]
  | some value => exact cons hknows (emit answer)

theorem operator : Meets now [] (job.operator frame token index stack) := by
  rw [Job.operator]
  cases job.operands? stack with
  | none => exact stop fun _ _ _ => rfl
  | some found =>
    obtain ⟨left, right, below⟩ := found
    refine look ?_
    cases now.registries.operators.find? token.text with
    | none => exact stop fun _ _ _ => rfl
    | some op => exact (apply op.function [left, right] token below).bind_nil fun _ => emit answer

theorem argumentValues {argument : List Token → Run Float} {reach : List Token → List Token}
    (h : ∀ list, Meets now (reach list) (argument list)) (args : List (List Token)) :
    Meets now (args.flatMap reach) (Job.argumentValues argument args) := by
  induction args with
  | nil => exact answer
  | cons list rest ih =>
    rw [List.flatMap_cons]
    exact (h list).bind fun _ => ih.bind_nil fun _ => answer

/-- Arguments that can be evaluated are looked through as deep as the calls in them go. -/
def Deeper (now : Surroundings) (m : Mode) (depth : Nat) (deeper : Option Job.Argument) : Prop :=
  ∀ argument ∈ deeper, ∃ below, depth = below + 1 ∧
    ∀ caller list, Meets now (now.sheet.reached m below list) (argument caller list)

theorem call (hk : token.kind = .call) (hdeeper : Deeper now m depth deeper) :
    Meets now (token :: now.sheet.opened m depth token)
      (job.call frame deeper token index stack) := by
  refine look ?_
  have hknows := now.registries.knows_call hk
  cases hfind : now.registries.functions.find? token.text with rw [hfind] at hknows
  | none =>
    refine fun _ => ⟨token, Registries.firstUnknown?_cons_of_not hknows, stack, job.source, ?_⟩
    rw [EvalCause.ofUnknown, if_pos hk]
  | some function =>
    refine cons hknows ?_
    cases hargs : now.sheet.args? token.handle with
    | none => exact stop fun _ _ _ => rfl
    | some args =>
      cases deeper with
      | none => exact fail rfl
      | some argument =>
        obtain ⟨below, rfl, hargument⟩ := hdeeper argument rfl
        rw [Sheet.opened_call hk hargs]
        refine (argumentValues (hargument token) args).bind_nil fun values => emit ?_
        exact (apply function values token stack).bind_nil fun _ => emit answer

theorem single (hdeeper : Deeper now m depth deeper) :
    Meets now (token :: now.sheet.opened m depth token)
      (job.single frame deeper token index stack) := by
  rw [Job.single]
  have hnone (hk : token.kind ≠ .call) : now.sheet.opened m depth token = [] :=
    Sheet.opened_of_ne hk
  cases hk : token.kind with
  | number =>
    rw [hnone (by simp [hk])]
    exact cons (by simp [Registries.knows, hk]) number
  | constant =>
    rw [hnone (by simp [hk])]
    exact constant hk
  | call => exact call hk hdeeper
  | operator =>
    rw [hnone (by simp [hk])]
    exact cons (by simp [Registries.knows, hk]) operator
  | openBracket | closeBracket | separator | other => exact stop fun _ _ _ => rfl

/-! ### Listings -/

theorem tokens (hdeeper : Deeper now m depth deeper) (list : List (Token × Nat))
    (stack : List Float) :
    Meets now ((list.map Prod.fst).flatMap fun t => t :: now.sheet.opened m depth t)
      (job.tokens frame deeper list stack) := by
  induction list generalizing stack with
  | nil => exact answer
  | cons entry rest ih =>
    obtain ⟨t, i⟩ := entry
    rw [Job.tokens_cons, List.map_cons, List.flatMap_cons]
    exact (single hdeeper).bind fun s => ih s

theorem listing (hdeeper : Deeper now job.mode depth deeper) (list : List Token) :
    Meets now (now.sheet.reached job.mode depth list) (job.listing frame deeper list) := by
  have hmap := job.mode.map_scanOrder Prod.fst list.zipIdx
  rw [List.zipIdx_map_fst] at hmap
  rw [Sheet.reached, ← hmap]
  refine (tokens hdeeper _ []).bind_nil fun s => ?_
  split
  · exact answer
  · exact stop fun _ _ _ => rfl

/-- **An evaluation fails over a name if it gets to one that is not known**, and over the first
one. -/
theorem evaluate {levels : Nat} (h : levels ≤ depth) (frame : Frame) (list : List Token) :
    Meets now (now.sheet.reached job.mode depth list) (job.evaluate levels frame list) := by
  induction levels generalizing depth frame list with
  | zero => exact listing (fun _ hnone => by cases hnone) list
  | succ levels ih =>
    refine listing (fun argument hargument => ⟨depth - 1, by omega, fun caller list => ?_⟩) list
    obtain rfl := Option.some.inj hargument
    exact emit (ih (by omega) _ list)

theorem run (h : job.limits.callDepth.toNat ≤ depth) (list : List Token) :
    Meets now (now.sheet.reached job.mode depth list) (job.run list) :=
  (evaluate h ⟨0, none⟩ list).bind_nil fun _ => emit answer

end Meets

end Evaluate

/-! ## Compilations -/

namespace Engine

variable {e e' : Engine} {sheet : Sheet} {tokens : List Token} {m : Mode}
  {source source' : Option String} {c : Compile.Compiled}

/-- An evaluation of what has been compiled gets to all the names in the tokens, and if operators
are last it does so in their order. -/
theorem meets_of_compile (hcalls : ((tokens.filter (·.kind = .call)).map Token.handle).Nodup)
    (hc : e.compile sheet tokens m.name source = .ok c) (e' : Engine) (draws : Evaluate.Draws)
    (source' : Option String) :
    ∃ met, Evaluate.Meets (e'.surroundings (sheet.attachAll c.attached)) met
        (Evaluate.Job.run ⟨m, e'.limits, source', draws⟩ c.listing) ∧
      (met.filter (·.kind.isOperand)).Perm (tokens.filter (·.kind.isOperand)) ∧
      (m = .rpn → met.filter (·.kind.isOperand) = tokens.filter (·.kind.isOperand)) := by
  obtain ⟨-, p, rfl, hmatched, hsound, rfl⟩ := compile_ok_iff.1 hc
  let entries := p.entries m e.registries.operators
  let depth := e'.limits.callDepth.toNat + entries.length
  have hholds : (sheet.attachAll entries).Holds depth entries :=
    ⟨Phrase.args?_attachAll sheet hmatched hsound hcalls, Nat.le_add_left _ _⟩
  have hkeeps := Phrase.keeps_listing (p.keeps hmatched hsound _ hholds)
  refine ⟨_, .run (Nat.le_add_right _ entries.length) _, ?_, ?_⟩
  · rw [← hkeeps.order]
    exact (Sheet.reached_perm _).filter _
  · rintro rfl
    rw [← hkeeps.order]
    exact congrArg _ (Sheet.reached_rpn _)

/-- **A look at the tokens says what an evaluation finds.**  If all names are known when a token
list has been compiled, its listing may fail to evaluate, but not over a name.  And if some name is
not known it has no value; then it may fail over a name of the tokens that is not known, and if
operators are last this is the first one in the source.

The calls of the list have to be told apart by their handles: no call stands at two places.  Of one
that did, the arguments written last would be found at both, and names in the others would never be
looked up. -/
theorem evaluateListing_unknown
    (hcalls : ((tokens.filter (·.kind = .call)).map Token.handle).Nodup)
    (hc : e.compile sheet tokens m.name source = .ok c) (hr : e'.registries = e.registries)
    (draws : Evaluate.Draws) (source' : Option String) :
    (e.registries.firstUnknown? tokens = none → ∀ failure,
      e'.evaluateListing draws (sheet.attachAll c.attached) c.listing m.name source'
        = .error failure → failure.overName = false) ∧
    ∀ t, e.registries.firstUnknown? tokens = some t →
      (∀ value,
        e'.evaluateListing draws (sheet.attachAll c.attached) c.listing m.name source'
          ≠ .ok value) ∧
      ∀ failure,
        e'.evaluateListing draws (sheet.attachAll c.attached) c.listing m.name source'
          = .error failure → failure.overName = true → ∃ u ∈ tokens, e.registries.knows u = false ∧
            failure.Misses u ∧ (m = .rpn → u = t) := by
  obtain ⟨met, hmeets, hperm, horder⟩ := meets_of_compile hcalls hc e' draws source'
  -- The tokens met are those of the list in some order, and in theirs if operators are last.
  have hnone : e.registries.firstUnknown? met = none ↔
      e.registries.firstUnknown? tokens = none := by
    rw [← Registries.firstUnknown?_filter, Registries.firstUnknown?_perm hperm,
      Registries.firstUnknown?_filter]
  have hfirst (hm : m = .rpn) :
      e.registries.firstUnknown? met = e.registries.firstUnknown? tokens := by
    rw [← Registries.firstUnknown?_filter, horder hm, Registries.firstUnknown?_filter]
  rw [evaluateListing_name]
  simp only [Evaluate.Meets, surroundings, hr] at hmeets ⊢
  refine ⟨fun hknown failure hfailure => ?_, fun t ht => ⟨fun value hvalue => ?_,
    fun failure hfailure hover => ?_⟩⟩
  · rw [hfailure] at hmeets
    refine Bool.eq_false_iff.2 fun hover => ?_
    obtain ⟨u, hu, -⟩ := hmeets hover
    rw [hnone.2 hknown] at hu
    cases hu
  · rw [hvalue] at hmeets
    rw [hnone.1 hmeets] at ht
    cases ht
  · rw [hfailure] at hmeets
    obtain ⟨u, hu, hmiss⟩ := hmeets hover
    have hfound := Registries.mem_of_firstUnknown? (Registries.firstUnknown?_filter.trans hu)
    have hoperand := hperm.mem_iff.1 hfound.1
    refine ⟨u, List.mem_of_mem_filter hoperand, hfound.2, hmiss, fun hm => ?_⟩
    rw [← hfirst hm, hu] at ht
    exact Option.some.inj ht

/-- In `max(2^n,f(1))` the name `n` is the first one that is not known, and an evaluation of the
listing with the operators last fails over it, inside the arguments. -/
theorem evaluateListing_unknown_nested : ∃ c failure,
    standard.compile .empty [⟨.call, "max", 0, 0⟩, ⟨.openBracket, "(", 3, 1⟩,
        ⟨.number, "2", 4, 2⟩, ⟨.operator, "^", 5, 3⟩, ⟨.constant, "n", 6, 4⟩,
        ⟨.separator, ",", 7, 5⟩, ⟨.call, "f", 8, 6⟩, ⟨.openBracket, "(", 9, 7⟩,
        ⟨.number, "1", 10, 8⟩, ⟨.closeBracket, ")", 11, 9⟩, ⟨.closeBracket, ")", 12, 10⟩]
        Mode.rpn.name none = .ok c ∧
      standard.evaluateListing (fun _ _ => 0) (Sheet.empty.attachAll c.attached) c.listing
        Mode.rpn.name none = .error failure ∧
      failure.overName = true ∧ failure.Misses ⟨.constant, "n", 6, 4⟩ := by
  let tokens : List Token := [⟨.call, "max", 0, 0⟩, ⟨.openBracket, "(", 3, 1⟩,
    ⟨.number, "2", 4, 2⟩, ⟨.operator, "^", 5, 3⟩, ⟨.constant, "n", 6, 4⟩,
    ⟨.separator, ",", 7, 5⟩, ⟨.call, "f", 8, 6⟩, ⟨.openBracket, "(", 9, 7⟩,
    ⟨.number, "1", 10, 8⟩, ⟨.closeBracket, ")", 11, 9⟩, ⟨.closeBracket, ")", 12, 10⟩]
  obtain ⟨c, hc⟩ : ∃ c, standard.compile .empty tokens Mode.rpn.name none = .ok c := ⟨_, rfl⟩
  have hfails : (standard.compile .empty tokens Mode.rpn.name none).toOption.map (fun c =>
      match standard.evaluateListing (fun _ _ => 0) (Sheet.empty.attachAll c.attached) c.listing
        Mode.rpn.name none with
      | .error failure => failure.overName
      | .ok _ => false) = some true := by decide +kernel
  have hfirst : standard.registries.firstUnknown? tokens = some ⟨.constant, "n", 6, 4⟩ := rfl
  rw [hc, Except.toOption, Option.map_some, Option.some.injEq] at hfails
  have hboth := (evaluateListing_unknown (by decide) hc rfl (fun _ _ => 0) none).2 _ hfirst
  cases hresult : standard.evaluateListing (fun _ _ => 0) (Sheet.empty.attachAll c.attached)
      c.listing Mode.rpn.name none with
  | ok value => exact absurd hresult (hboth.1 value)
  | error failure =>
    rw [hresult] at hfails
    obtain ⟨u, -, -, hmiss, hu⟩ := hboth.2 failure hresult hfails
    rw [hu rfl] at hmiss
    exact ⟨c, failure, hc, hresult, hfails, hmiss⟩

end Engine

end Polish
