import Polish.Proofs.Engine.Frame
import Polish.Proofs.Evaluate.Expression
import Polish.Proofs.Tree.Agreement

/-!
# Where both notations have the same value

A table may have operators of one level that group differently, and then the two notations of an
expression need not group its operands in the same way.  `Engine.notations_agree_iff` says for which
expressions they do, and that these have the same value in both.

The value is that of a text that draws nothing.  The two notations come to the tokens of a text in
different orders, so numbers that come up one after another would not fall to the same tokens.

## How the proof goes

That each notation lists a tree of the expression is `Engine.compile_expression`, and the two trees
are compared in `Polish.Proofs.Tree.Agreement`: they have the same operands in the same order, and
differ in which of two operators of one level is below the other.  The compiler decides that by
asking the operator that it is about to push (`_push_operator`), which is the right one of the two
from the left and the left one from the right.  If the two group differently, the answers differ.
-/

set_option autoImplicit false

namespace Polish

namespace Engine

/-- **Both notations of a text group its operands in the same way** exactly if its operators agree,
and then, if it draws nothing, it has the same value in both. -/
theorem notations_agree_iff {e : Engine} (hregistered : e.Registered) {text : String}
    {x : Expression} (htokens : e.tokenize text = .ok x.tokens) (hp : x.Proper)
    (hv : x.Valid e.registries.operators e.limits.functionArgs) :
    (∀ m : Mode, ∃ c, e.compile .empty x.tokens m.name (some text) = .ok c ∧
        c.listing = (x.tree (m.leftFirst e.registries.operators)).listing m ∧
        (x.tree (m.leftFirst e.registries.operators)).Attached m
          (Sheet.empty.attachAll c.attached)) ∧
      (x.tree (Mode.leftFirst .rpn e.registries.operators)
          = x.tree (Mode.leftFirst .pn e.registries.operators) ↔
        x.Agrees e.registries.operators) ∧
      (x.Agrees e.registries.operators → e.DrawsNothing text → ∀ draws draws' value,
        e.evaluate draws text "rpn" = .ok value ↔ e.evaluate draws' text "pn" = .ok value) := by
  have hdistinct := (hregistered.readsArithmetic.tokenize htokens).2
  have htree := x.tree_eq_iff hp hv
  refine ⟨fun m => ?_, htree, fun hagree hnothing draws draws' value => ?_⟩
  · exact compile_expression m (some text) hp hv (fun _ _ _ => rfl) hdistinct
  · have hrpn : e.evaluate draws' text "rpn" = .ok value ↔ _ :=
      evaluate_expression (m := .rpn) htokens hp hv hdistinct
    have hpn : e.evaluate draws' text "pn" = .ok value ↔ _ :=
      evaluate_expression (m := .pn) htokens hp hv hdistinct
    rw [evaluate_draws hnothing draws draws' "rpn", hrpn, hpn, htree.2 hagree]

/-- A sum that groups to the right, on the level where the difference groups to the left. -/
def rightSum : Operator := ⟨2, .binary fun a b => .ok (a + b), true⟩

/-- An engine with such a sum. -/
def withRightSum : Engine :=
  { standard with registries := standard.registries.registerOperator "+" rightSum }

theorem registerAll_rightSum :
    standard.registerAll [.operator "+" rightSum] = .ok withRightSum := by
  rfl

/-- Only `random` draws with such a sum. -/
theorem drawsNothing_withRightSum {text : String} (h : ¬ "random".toList <:+: text.toList) :
    withRightSum.DrawsNothing text := by
  have hnew : (withLimits .standard).registerAll [.operator "+" rightSum] = .ok withRightSum :=
    registerAll_rightSum
  have hsum : ∀ r ∈ [Registration.operator "+" rightSum], r.DrawsNothing :=
    List.forall_mem_singleton.2 fun _ _ _ => rfl
  exact drawsNothing_of_registerAll hnew hsum h

/-- With such a sum, the operators of `1+2*3` still agree. -/
theorem notations_agree_product :
    standard.registerAll [.operator "+" rightSum] = .ok withRightSum ∧
      ∀ draws draws', withRightSum.evaluate draws "1+2*3" "rpn" = .ok 7 ∧
        withRightSum.evaluate draws' "1+2*3" "pn" = .ok 7 := by
  let x : Expression := .chain (.value ⟨.number, "1", 0, 0⟩) ⟨.operator, "+", 1, 1⟩
    (.chain (.value ⟨.number, "2", 2, 2⟩) ⟨.operator, "*", 3, 3⟩
      (.single (.value ⟨.number, "3", 4, 4⟩)))
  have hregistered : withRightSum.Registered :=
    ⟨.standard, [.operator "+" rightSum], registerAll_rightSum⟩
  have htokens : withRightSum.tokenize "1+2*3" = .ok x.tokens :=
    toOption_eq_some.1 (by decide +kernel)
  have hproper : x.Proper := ⟨rfl, rfl, rfl, rfl, rfl⟩
  have hvalid : x.Valid withRightSum.registries.operators withRightSum.limits.functionArgs :=
    ⟨trivial, by decide, trivial, by decide, trivial⟩
  have hnothing : withRightSum.DrawsNothing "1+2*3" :=
    drawsNothing_withRightSum (by simp [List.infix_cons_iff])
  obtain ⟨-, htree, hvalues⟩ := notations_agree_iff hregistered htokens hproper hvalid
  have hrpn : withRightSum.evaluate (fun _ _ => 0) "1+2*3" "rpn" = .ok 7 :=
    toOption_eq_some.1 (by decide +kernel)
  refine ⟨registerAll_rightSum, fun draws draws' => ?_⟩
  have hdraws := evaluate_draws hnothing draws (fun _ _ => 0) "rpn"
  exact ⟨hdraws.trans hrpn, (hvalues (htree.1 rfl) hnothing _ draws' 7).1 hrpn⟩

/-- The operators of `1-2+3` do not, and it is minus four in one notation and two in the other,
whatever comes up. -/
theorem notations_disagree :
    standard.registerAll [.operator "+" rightSum] = .ok withRightSum ∧
      (∀ draws draws', withRightSum.evaluate draws "1-2+3" "rpn" = .ok (-4) ∧
        withRightSum.evaluate draws' "1-2+3" "pn" = .ok 2) ∧ (-4 : Float) ≠ 2 := by
  have hnothing : withRightSum.DrawsNothing "1-2+3" :=
    drawsNothing_withRightSum (by simp [List.infix_cons_iff])
  have hrpn : withRightSum.evaluate (fun _ _ => 0) "1-2+3" "rpn" = .ok (-4) :=
    toOption_eq_some.1 (by decide +kernel)
  have hpn : withRightSum.evaluate (fun _ _ => 0) "1-2+3" "pn" = .ok 2 :=
    toOption_eq_some.1 (by decide +kernel)
  refine ⟨registerAll_rightSum, fun draws draws' => ?_, by decide⟩
  exact ⟨(evaluate_draws hnothing draws _ "rpn").trans hrpn,
    (evaluate_draws hnothing draws' _ "pn").trans hpn⟩

end Engine

end Polish
