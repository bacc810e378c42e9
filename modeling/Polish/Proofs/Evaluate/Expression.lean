import Polish.Proofs.Compile.Expression
import Polish.Proofs.Evaluate.Tree

/-!
# The value of an expression

`Engine.evaluate_ok_iff_stages` takes an evaluation of a text apart into its stages.  For a text
whose tokens are an expression, `Engine.evaluate_expression` says what comes of them: the value of
the tree that the scan has of the expression, if all names are known and the calls are not nested
too deeply.

## How the proof goes

The stages are functions of the result before, so an evaluation that succeeds gives a list of
tokens, a compiled listing and a value, and from these it can be put together again.  For an
expression the first two are determined: the tokens are given, and what they compile to is the
listing of the tree.  Then `Evaluate.evaluates_listing` says which value that listing has.  All of
it is an equivalence, so that the theorem says as well when there is no value.
-/

set_option autoImplicit false

namespace Polish

/-! ## Trees of expressions -/

section

variable (before : Token → Token → Bool)

mutual

theorem Term.proper_tree : (t : Term) → t.Proper → (t.tree before).Proper
  | .value _, h => h
  | .group _ inner _, ⟨_, hi, _⟩ => inner.proper_tree hi
  | .bare _ _ _, ⟨hn, _, _⟩ => ⟨hn, trivial⟩
  | .call _ _ args _, ⟨hn, _, ha, _⟩ => ⟨hn, args.proper_trees ha⟩

theorem Expression.proper_tree : (x : Expression) → x.Proper → (x.tree before).Proper
  | .single t, h => t.proper_tree h
  | .chain t _ rest, ⟨ht, ho, hr⟩ =>
    Tree.proper_prepend (t.proper_tree ht) ho (rest.proper_tree hr)

theorem Arguments.proper_trees : (as : Arguments) → as.Proper → Tree.ProperAll (as.trees before)
  | .last x, h => ⟨x.proper_tree h, trivial⟩
  | .more x _ rest, ⟨hx, _, hr⟩ => ⟨x.proper_tree hx, rest.proper_trees hr⟩

end

end

/-! ## Stages -/

theorem Registries.firstUnknown?_eq_none_iff {r : Registries} {tokens : List Token} :
    r.firstUnknown? tokens = none ↔ ∀ t ∈ tokens, r.knows t = true := by
  simp [firstUnknown?]

namespace Engine

open Evaluate (Draws)

variable {e : Engine} {draws : Draws} {m : Mode} {text : String} {value : Float}

/-- An engine's evaluation in a notation that exists is the evaluation as such. -/
theorem evaluateListing_name (e : Engine) (draws : Draws) (sheet : Sheet) (listing : List Token)
    (m : Mode) (source : Option String) :
    e.evaluateListing draws sheet listing m.name source
      = (Evaluate.Job.run ⟨m, e.limits, source, draws⟩ listing).eager (e.surroundings sheet) := by
  rw [evaluateListing, evaluation, modeNamed, Mode.ofName?_name]
  simp only [Stepwise.eager_attempt]
  rfl

theorem evaluateListing_ok_iff {sheet : Sheet} {listing : List Token} {source : Option String} :
    e.evaluateListing draws sheet listing m.name source = .ok value ↔
      Evaluate.Evaluates ⟨m, e.limits, source, draws⟩ (e.surroundings sheet)
        e.limits.callDepth.toNat listing value := by
  rw [evaluateListing_name]
  exact Evaluate.Job.run_ok

/-- **The stages of an evaluation.** -/
theorem evaluate_ok_iff_stages :
    e.evaluate draws text m.name = .ok value ↔
      ∃ tokens c, e.tokenize text = .ok tokens ∧
        e.compile .empty tokens m.name (some text) = .ok c ∧
        (∀ t ∈ tokens, e.registries.knows t = true) ∧
        Evaluate.Evaluates ⟨m, e.limits, some text, draws⟩
          (e.surroundings (Sheet.empty.attachAll c.attached)) e.limits.callDepth.toNat
          c.listing value := by
  simp only [evaluate, except_bind_ok, ← Registries.firstUnknown?_eq_none_iff,
    ← evaluateListing_ok_iff]
  constructor
  · rintro ⟨tokens, htokens, c, hc, h⟩
    cases hunknown : e.registries.firstUnknown? tokens with
    | some t => simp [hunknown] at h
    | none => exact ⟨tokens, c, htokens, hc, hunknown, by simpa [hunknown] using h⟩
  · rintro ⟨tokens, c, htokens, hc, hunknown, h⟩
    exact ⟨tokens, htokens, c, hc, by simpa [hunknown] using h⟩

/-- **The value of a text that is an expression.** -/
theorem evaluate_expression {x : Expression} (htokens : e.tokenize text = .ok x.tokens)
    (hp : x.Proper) (hv : x.Valid e.registries.operators e.limits.functionArgs)
    (hdistinct : (x.tokens.map Token.handle).Nodup) :
    e.evaluate draws text m.name = .ok value ↔
      (∀ t ∈ x.tokens, e.registries.knows t = true) ∧
        (x.tree (m.leftFirst e.registries.operators)).eval e.registries draws = some value ∧
        (x.tree (m.leftFirst e.registries.operators)).callDepth ≤ e.limits.callDepth.toNat := by
  have hnew : ∀ t ∈ x.tokens, t.kind = .call → Sheet.empty.args? t.handle = none :=
    fun _ _ _ => rfl
  obtain ⟨c, hc, hlisting, hattached⟩ := compile_expression m (some text) hp hv hnew hdistinct
  have heval : Evaluate.Evaluates ⟨m, e.limits, some text, draws⟩
      (e.surroundings (Sheet.empty.attachAll c.attached)) e.limits.callDepth.toNat
      ((x.tree (m.leftFirst e.registries.operators)).listing m) value ↔ _ ∧ _ :=
    Evaluate.evaluates_listing (x.proper_tree _ hp) hattached
  rw [evaluate_ok_iff_stages]
  constructor
  · rintro ⟨tokens, c', htokens', hc', hknown, h⟩
    rw [htokens, Except.ok.injEq] at htokens'
    subst htokens'
    rw [hc, Except.ok.injEq] at hc'
    subst hc'
    exact ⟨hknown, heval.1 (by rwa [hlisting] at h)⟩
  · rintro ⟨hknown, h⟩
    exact ⟨_, c, htokens, hc, hknown, by rw [hlisting]; exact heval.2 h⟩

end Engine

end Polish
