import Polish.Proofs.Engine.Failures
import Polish.Proofs.Engine.Registration
import Polish.Proofs.Evaluate.Depth

/-!
# Limits are exact

A limit is kept to the last unit: no more is let through than it says, and what is rejected is one
above it.  For the arguments of a call this holds from the left and from the right; for the nesting
of calls it holds whatever is on the sheet, even if arguments lead back to their own call.

* `Engine.compile_callsWithin`, `Engine.compile_limit` — compilations;
* `Engine.evaluateListing_nestedWithin`, `Engine.evaluateListing_limit` — evaluations;
* `Engine.limits_exact` — all together.

## How the proof goes

The compiler counts and the evaluator goes down, and each half has been proved where the counting is
done: `Compile.Job.run_counted` keeps every call within the limit and has the first count that is
not one above it, and `Evaluate.Job.run_unlimited` says of a listing that is not nested too deeply
that it does not run into the limit.  What is left is to take them to the engine and to both
notations.

For the nesting there is one thing more to say: that the arguments below the limit are not looked at
at all.  A statement about what a computation does not do is made by putting something arbitrary in
its place, `Evaluate.Job.runOr`, and showing that nobody can tell.
-/

set_option autoImplicit false

namespace Polish

/-- Each call has arguments on the sheet, but not too many. -/
def Sheet.CallsWithin (sheet : Sheet) (limit : Int) (tokens : List Token) : Prop :=
  ∀ t ∈ tokens, t.kind = .call →
    ∃ args, sheet.args? t.handle = some args ∧ (args.length : Int) ≤ limit

namespace Engine

variable {e : Engine} {draws : Evaluate.Draws} {sheet : Sheet} {tokens listing : List Token}
  {mode : String} {source : Option String}

/-! ## Compilations -/

/-- **After a compilation no call has too many arguments.** -/
theorem compile_callsWithin {c : Compile.Compiled} (hlimit : 0 ≤ e.limits.functionArgs)
    (h : e.compile sheet tokens mode source = .ok c) :
    (sheet.attachAll c.attached).CallsWithin e.limits.functionArgs tokens := by
  rcases e.compile_cases sheet tokens mode source with ⟨m, rfl⟩ | hmode
  · have hrun := h
    rw [compile_name] at hrun
    intro t ht hk
    have hmem : t.handle ∈ c.attached.map Prod.fst :=
      (Compile.Job.attached_calls hrun).mem_iff.2 (List.mem_map_of_mem (by simp [ht, hk]))
    obtain ⟨args, hargs⟩ : ∃ args, (sheet.attachAll c.attached).args? t.handle = some args :=
      Option.isSome_iff_exists.1 (Sheet.isSome_args?_attachAll.2 (.inl hmem))
    have hlength : args.length ≤ e.limits.functionArgs.toNat :=
      Compile.Job.run_counted.of_ok trivial hrun _ (mem_attached_of_compile h ht hk hargs)
    exact ⟨args, hargs, by omega⟩
  · cases hmode.symm.trans h

/-- **A compilation that comes to a limit** has counted one argument above it. -/
theorem compile_limit {x : LimitExceeded} (hlimit : 0 ≤ e.limits.functionArgs)
    (h : e.compile sheet tokens mode source = .error (.limit x)) :
    x.which = .functionArgs ∧ x.bound = e.limits.functionArgs ∧
      x.actual = e.limits.functionArgs + 1 := by
  rcases compile_rejection h with hmode | ⟨m, rfl, hrejection⟩
  · cases hmode
  · cases hrejection with
    | count hmem hk => exact ⟨rfl, rfl, by simp only; omega⟩

/-! ## Evaluations -/

/-- **What has a value is not nested more deeply than the limit.** -/
theorem evaluateListing_nestedWithin {value : Float}
    (h : e.evaluateListing draws sheet listing mode source = .ok value) :
    sheet.NestedWithin e.limits.callDepth.toNat listing := by
  rcases e.evaluateListing_cases draws sheet listing mode source with ⟨m, rfl⟩ | hmode
  · exact Evaluate.nestedWithin_of_evaluates (evaluateListing_ok_iff.1 h)
  · cases hmode.symm.trans h

/-- **An evaluation that comes to a limit** has counted one level above it, and the listing is
nested that deeply. -/
theorem evaluateListing_limit {x : LimitExceeded} (hlimit : 0 ≤ e.limits.callDepth)
    (h : e.evaluateListing draws sheet listing mode source = .error (.limit x)) :
    x.which = .callDepth ∧ x.bound = e.limits.callDepth ∧ x.actual = e.limits.callDepth + 1 ∧
      ¬ sheet.NestedWithin e.limits.callDepth.toNat listing := by
  have hanything : sheet.Closed fun _ => True := fun _ _ _ _ _ _ _ _ _ => trivial
  rcases evaluateListing_complaint hanything (fun _ _ => trivial) h with hmode | ⟨m, rfl, hx⟩
  · cases hmode
  · rw [evaluateListing_name] at h
    have hdeep : ¬ sheet.NestedWithin e.limits.callDepth.toNat listing :=
      fun hnested => Evaluate.Job.run_unlimited hnested x h
    cases hx with
    | depth hlisted hk => exact ⟨rfl, rfl, by simp only; omega, hdeep⟩

/-! ## All together -/

/-- **The limits on arguments and on nesting are exact in both notations.**  Of whatever tokens and
with whatever is on the sheet, a compilation leaves no call with too many arguments, and if it comes
to a limit it has counted one argument above it; an evaluation evaluates no argument at a depth
above the limit, has no value if calls are nested more deeply, and if it comes to a limit it has
counted one level above it. -/
theorem limits_exact (hargs : 0 ≤ e.limits.functionArgs) (hdepth : 0 ≤ e.limits.callDepth)
    (draws : Evaluate.Draws) (sheet : Sheet) (tokens : List Token) (m : Mode)
    (source : Option String) :
    (∀ c, e.compile sheet tokens m.name source = .ok c →
      (sheet.attachAll c.attached).CallsWithin e.limits.functionArgs tokens) ∧
    (∀ x, e.compile sheet tokens m.name source = .error (.limit x) →
      x.which = .functionArgs ∧ x.bound = e.limits.functionArgs ∧
        x.actual = e.limits.functionArgs + 1) ∧
    (∀ other (levels : Nat), e.limits.callDepth < levels →
      Evaluate.Job.runOr ⟨m, e.limits, source, draws⟩ other levels tokens
        = Evaluate.Job.run ⟨m, e.limits, source, draws⟩ tokens) ∧
    (∀ value, e.evaluateListing draws sheet tokens m.name source = .ok value →
      sheet.NestedWithin e.limits.callDepth.toNat tokens) ∧
    ∀ x, e.evaluateListing draws sheet tokens m.name source = .error (.limit x) →
      x.which = .callDepth ∧ x.bound = e.limits.callDepth ∧ x.actual = e.limits.callDepth + 1 ∧
        ¬ sheet.NestedWithin e.limits.callDepth.toNat tokens :=
  ⟨fun _ => compile_callsWithin hargs, fun _ => compile_limit hargs,
    fun other _ hlevels => Evaluate.Job.runOr_eq other hdepth hlevels tokens,
    fun _ => evaluateListing_nestedWithin, fun _ => evaluateListing_limit hdepth⟩

/-- With one argument for each call and three levels of calls, `max(2,3)` has one argument too many,
and a call that is its own argument is one level too deep. -/
theorem limits_exact_circle : ∃ x y,
    (withLimits ⟨4096, 100, 1, 3⟩).compile .empty [⟨.call, "max", 0, 0⟩, ⟨.openBracket, "(", 3, 1⟩,
        ⟨.number, "2", 4, 2⟩, ⟨.separator, ",", 5, 3⟩, ⟨.number, "3", 6, 4⟩,
        ⟨.closeBracket, ")", 7, 5⟩] "pn" none = .error (.limit x) ∧ x.actual = 2 ∧
      (withLimits ⟨4096, 100, 1, 3⟩).evaluateListing (fun _ _ => 0)
        ⟨[(0, [[⟨.call, "abs", 0, 0⟩]])]⟩ [⟨.call, "abs", 0, 0⟩] "rpn" none = .error (.limit y) ∧
      y.actual = 4 := by
  obtain ⟨x, hx⟩ : ∃ x, (withLimits ⟨4096, 100, 1, 3⟩).compile .empty [⟨.call, "max", 0, 0⟩,
      ⟨.openBracket, "(", 3, 1⟩, ⟨.number, "2", 4, 2⟩, ⟨.separator, ",", 5, 3⟩,
      ⟨.number, "3", 6, 4⟩, ⟨.closeBracket, ")", 7, 5⟩] "pn" none = .error (.limit x) := ⟨_, rfl⟩
  obtain ⟨y, hy⟩ : ∃ y, (withLimits ⟨4096, 100, 1, 3⟩).evaluateListing (fun _ _ => 0)
      ⟨[(0, [[⟨.call, "abs", 0, 0⟩]])]⟩ [⟨.call, "abs", 0, 0⟩] "rpn" none
      = .error (.limit y) := ⟨_, rfl⟩
  have hcompile := (limits_exact (by decide) (by decide) (fun _ _ => 0) .empty _ .pn none).2.1 x hx
  have hevaluate := (limits_exact (by decide) (by decide) _ _ _ .rpn none).2.2.2.2 y hy
  exact ⟨x, y, hx, hcompile.2.2, hy, hevaluate.2.2.1⟩

end Engine

end Polish
