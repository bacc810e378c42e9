import Polish.Proofs.Engine.Registration
import Polish.Proofs.Evaluate.Expression
import Polish.Proofs.Evaluate.Recognition

/-!
# The value of a text

`Engine.exists_expression` — a text that has a value is an expression.  Together with what is known
of expressions, `Engine.evaluate_text_iff` says exactly which texts have which values.

## How the proof goes

A text with a value is read as some tokens, and these take turns; their listing has a value, so it
is complete; and a phrase of which both is true is an expression
(`Phrase.isExpression_of_complete`).  The other half, that an expression compiles to a listing with
the value of its tree, has been proved before, without regard to where the tokens come from.
-/

set_option autoImplicit false

namespace Polish

namespace Engine

open Evaluate (Draws)

variable {e : Engine} {draws : Draws} {m : Mode} {text : String} {value : Float}

/-- **A text that has a value is an expression.** -/
theorem exists_expression (hgrammar : e.ReadsArithmetic) (hargs : 0 ≤ e.limits.functionArgs)
    (h : e.evaluate draws text m.name = .ok value) :
    ∃ x : Expression, e.tokenize text = .ok x.tokens ∧ x.Proper ∧
      x.Valid e.registries.operators e.limits.functionArgs := by
  obtain ⟨tokens, c, htokens, hc, -, heval⟩ := evaluate_ok_iff_stages.1 h
  obtain ⟨-, p, rfl, hmatched, hsound, rfl⟩ := compile_ok_iff.1 hc
  obtain ⟨hturns, hdistinct⟩ := hgrammar.tokenize htokens
  have hentries := Phrase.args?_attachAll (m := m) .empty hmatched hsound
    (Token.nodup_calls hdistinct)
  obtain ⟨x, rfl, hp, hv⟩ := Phrase.isExpression_of_complete hargs hmatched hsound hentries
    heval.complete hturns
  exact ⟨x, by rw [htokens, x.tokens_toPhrase], hp, hv⟩

/-- **Which texts have which values**: those that are read as an expression over known names, with
calls that take and nest no more than the limits allow, and the value is that of its tree, when the
same numbers come up. -/
theorem evaluate_text_iff (hregistered : e.Registered) (hargs : 0 ≤ e.limits.functionArgs)
    (hdepth : 0 ≤ e.limits.callDepth) (huniform : e.registries.operators.Uniform) (draws : Draws)
    (text : String) (m : Mode) (value : Float) :
    e.evaluate draws text m.name = .ok value ↔
      (text.length : Int) ≤ e.limits.expressionLength ∧
        ∃ x : Expression, e.grammar.parse text e.limits.sameIndex false = .ok x.tokens ∧
          x.Proper ∧ x.Valid e.registries.operators e.limits.functionArgs ∧
          (∀ t ∈ x.tokens, e.registries.knows t = true) ∧
          ((x.tree e.registries.operators.leftFirst).callDepth : Int) ≤ e.limits.callDepth ∧
          (x.tree e.registries.operators.leftFirst).eval e.registries draws = some value := by
  have hgrammar := hregistered.readsArithmetic
  have key (x : Expression) (htokens : e.tokenize text = .ok x.tokens) (hp : x.Proper)
      (hv : x.Valid e.registries.operators e.limits.functionArgs) :
      e.evaluate draws text m.name = .ok value ↔ _ :=
    evaluate_expression htokens hp hv (hgrammar.tokenize htokens).2
  rw [Mode.leftFirst_eq huniform] at key
  constructor
  · intro h
    obtain ⟨x, htokens, hp, hv⟩ := exists_expression hgrammar hargs h
    obtain ⟨hlength, hparse⟩ := tokenize_ok_iff.1 htokens
    obtain ⟨hknown, heval, hcalls⟩ := (key x htokens hp hv).1 h
    exact ⟨hlength, x, hparse, hp, hv, hknown, by omega, heval⟩
  · rintro ⟨hlength, x, hparse, hp, hv, hknown, hcalls, heval⟩
    have htokens := tokenize_ok_iff.2 ⟨hlength, hparse⟩
    exact (key x htokens hp hv).2 ⟨hknown, heval, by omega⟩

/-- In `max(2,3)*4` the call comes first. -/
theorem evaluate_text_product :
    standard.evaluate (fun _ _ => 0) "max(2,3)*4" "rpn" = .ok 12 := by
  let x : Expression := .chain
    (.call ⟨.call, "max", 0, 0⟩ ⟨.openBracket, "(", 3, 1⟩
      (.more (.single (.value ⟨.number, "2", 4, 2⟩)) ⟨.separator, ",", 5, 3⟩
        (.last (.single (.value ⟨.number, "3", 6, 4⟩)))) ⟨.closeBracket, ")", 7, 5⟩)
    ⟨.operator, "*", 8, 6⟩ (.single (.value ⟨.number, "4", 9, 7⟩))
  have hparse : standard.grammar.parse "max(2,3)*4" standard.limits.sameIndex false
      = .ok x.tokens := toOption_eq_some.1 (by decide +kernel)
  have hproper : x.Proper := ⟨⟨rfl, rfl, ⟨rfl, rfl, rfl⟩, rfl⟩, rfl, rfl⟩
  have hvalid : x.Valid standard.registries.operators standard.limits.functionArgs :=
    ⟨⟨by decide, trivial, trivial⟩, by decide, trivial⟩
  exact (evaluate_text_iff ⟨.standard, [], rfl⟩ (by decide) (by decide) Table.uniform_standard
    _ "max(2,3)*4" .rpn 12).2
    ⟨by decide, x, hparse, hproper, hvalid, by decide, by decide, by decide +kernel⟩

end Engine

end Polish
