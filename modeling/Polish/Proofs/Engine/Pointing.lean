import Polish.Proofs.Compile.Pointing
import Polish.Proofs.Engine.Failures
import Polish.Proofs.Engine.Moving
import Polish.Proofs.Grammar.Tokens

/-!
# Failures point into the text

Whatever is wrong with a text, it is wrong somewhere in the text.  The reader of tokens fails at the
offset that it has come to; from there on, what a failure points at is a token, and every token
stands in the text.

Two failures point nowhere.  A text that is too long is not looked at, and in an empty text there is
nothing to point at.

* `Failure.PointsAt`, `Failure.PointsInto` — what is said of where a failure points;
* `Engine.tokenize_cases`, `Engine.tokenize_empty` — whether a text has tokens;
* `Engine.evaluate_points` — all failures of an evaluation point into the text.

## How the proof goes

A failure is about a token, or it is about an offset, and for the former it is enough that the token
is one of the text, because a token stands at its position (`PointsAt.pointsInto`).  So the work is
to see for each stage that the tokens that it names come from the text: a compilation names tokens
of its list, and an evaluation names tokens that it has met, which are tokens of the list again.

The empty text is an exception by itself.  It has no tokens, its listing is empty, and an evaluation
of nothing has nothing to name.  The reader of tokens can fail in two more ways, over its grammar or
over hooks; neither happens to arithmetic, whatever has been registered.  For this the limit on
matches without progress must allow three of them in a row, and the standard limit does.
-/

set_option autoImplicit false

namespace Polish

open Evaluate.Job (Complaint)

/-! ## Where failures point -/

namespace Failure

/-- The token that a failure is about. -/
def token? : Failure → Option Token
  | compile e => some e.token
  | eval e => e.token
  | lex _ | limit _ | grammar _ | endless | mode _ => none

/-- The failure points at a place in the text or at its end, and if it is about a token, that stands
there. -/
def PointsInto (text : String) (f : Failure) : Prop :=
  ∃ position : Int, f.position = some position ∧ 0 ≤ position ∧ position ≤ text.length ∧
    ∀ t ∈ f.token?, t.pos = position ∧
      (text.toList.drop position.toNat).take t.text.length = t.text.toList

/-- The failure points at the token and is about no other one. -/
structure PointsAt (t : Token) (f : Failure) : Prop where
  position_eq : f.position = some t.pos
  token_eq : ∀ u ∈ f.token?, u = t

/-- What points at a token of a text points into the text. -/
theorem PointsAt.pointsInto {text : String} {f : Failure} {t : Token} (h : f.PointsAt t)
    (ht : t.StandsIn text) : f.PointsInto text := by
  refine ⟨t.pos, h.position_eq, ht.nonneg, ht.le_length, fun u hu => ?_⟩
  rw [h.token_eq u hu]
  exact ⟨rfl, ht.text_at⟩

theorem PointsAt.of_compile (e : CompileError) : (compile e).PointsAt e.token :=
  ⟨rfl, fun _ hu => (Option.some.inj hu).symm⟩

theorem PointsAt.of_eval {e : EvalError} {t : Token} (h : e.token = some t) :
    (eval e).PointsAt t := by
  refine ⟨?_, fun u hu => ?_⟩
  · rw [position, h]
    rfl
  · rw [token?, h] at hu
    exact (Option.some.inj hu).symm

theorem PointsAt.of_limit {e : LimitExceeded} {t : Token} (h : e.position = some t.pos) :
    (limit e).PointsAt t :=
  ⟨h, nofun⟩

end Failure

/-- **What an evaluation complains about** is a token that it has met, unless the listing is
empty. -/
theorem Evaluate.Job.Complaint.pointsAt {job : Job} {listed : Token → Prop} {whole : List Token}
    {f : Failure} (h : job.Complaint listed whole f) (hwhole : whole ≠ []) :
    ∃ t, listed t ∧ f.PointsAt t := by
  cases h with
  | stop stack hlisted => exact ⟨_, hlisted, .of_eval rfl⟩
  | depth hlisted => exact ⟨_, hlisted, .of_limit rfl⟩
  | @values list caller stack hlist hcaller hcase =>
    cases hlast : list.getLast? with
    | some t => exact ⟨t, hlist t (List.mem_of_getLast? hlast), .of_eval rfl⟩
    | none =>
      cases caller with
      | some t => exact ⟨t, hcaller t rfl, .of_eval rfl⟩
      | none => exact absurd (hcase rfl ▸ List.getLast?_eq_none_iff.1 hlast) hwhole

/-- An evaluation of nothing is about no token and points nowhere. -/
theorem Evaluate.Job.Complaint.nowhere {job : Job} {f : Failure}
    (h : job.Complaint (· ∈ ([] : List Token)) [] f) : f.position = none ∧ f.token? = none := by
  cases h with
  | stop stack hlisted => cases hlisted
  | depth hlisted => cases hlisted
  | @values list caller stack hlist hcaller =>
    have hnil : list = [] := List.eq_nil_iff_forall_not_mem.2 fun t ht => by cases hlist t ht
    have hnone : caller = none := Option.eq_none_iff_forall_not_mem.2 fun t ht => by
      cases hcaller t ht
    rw [hnil, hnone]
    exact ⟨rfl, rfl⟩

namespace Engine

variable {e : Engine} {draws : Evaluate.Draws} {text : String} {tokens : List Token}

/-! ## The stages -/

/-- **A text has tokens, is too long, or is wrong at some offset**, if the limit allows for the
empty matches that there may be. -/
theorem ReadsArithmetic.tokenize_cases (h : e.ReadsArithmetic) (hlimit : 3 ≤ e.limits.sameIndex)
    (text : String) :
    (∃ tokens, e.tokenize text = .ok tokens ∧ ∀ t ∈ tokens, t.StandsIn text) ∨
      (e.limits.expressionLength < text.length ∧ e.tokenize text
        = .error (.limit ⟨.expressionLength, e.limits.expressionLength, text.length, none⟩)) ∨
      ∃ error, e.tokenize text = .error (.lex error) ∧ 0 ≤ error.index ∧
        error.index ≤ text.length := by
  obtain ⟨pattern, hgrammar⟩ := h
  have hg := Arithmetic.hookless_reading pattern
  rw [Engine.tokenize, hgrammar, Limits.exceeded?, Limits.bound]
  by_cases hlength : e.limits.expressionLength < text.length
  · rw [if_pos hlength]
    exact .inr (.inl ⟨hlength, rfl⟩)
  · rw [if_neg hlength]
    have hstanding : ∀ ls, (Arithmetic.reading pattern).Walk text.toList [Arithmetic.valueRule] ls →
        (Lexeme.standing ls : Int) ≤ e.limits.sameIndex := fun ls hls =>
      Int.le_trans (Int.ofNat_le.2 (Arithmetic.standing_le_three hls)) hlimit
    rcases hg.parse_cases (Arithmetic.check_reading pattern)
        (Arithmetic.entryRules_reading pattern) hstanding false with ⟨tokens, hok⟩ | ⟨error, herror⟩
    · exact .inl ⟨tokens, by rw [hok]; rfl, fun t ht => hg.standsIn hok ht⟩
    · exact .inr (.inr ⟨error, by rw [herror]; rfl, hg.lex_index herror⟩)

/-- The one limit that stands before the tokens is that on the length of the text. -/
theorem tokenize_limit {x : LimitExceeded} (h : e.tokenize text = .error (.limit x)) :
    x = ⟨.expressionLength, e.limits.expressionLength, text.length, none⟩ := by
  rw [tokenize] at h
  cases hexceeded : e.limits.exceeded? .expressionLength text.length none with
  | some limit =>
    rw [hexceeded] at h
    obtain rfl := Failure.limit.inj (Except.error.inj h)
    rw [Limits.exceeded?, Option.ite_none_right_eq_some] at hexceeded
    exact (Option.some.inj hexceeded.2).symm
  | none =>
    rw [hexceeded] at h
    cases hparse : e.grammar.parse text e.limits.sameIndex false with
    | ok tokens =>
      rw [hparse] at h
      cases h
    | error error =>
      rw [hparse] at h
      cases error <;> cases h

/-- An empty text has no tokens. -/
theorem ReadsArithmetic.tokenize_empty (h : e.ReadsArithmetic)
    (hlimit : 0 ≤ e.limits.expressionLength) : e.tokenize "" = .ok [] := by
  obtain ⟨pattern, hgrammar⟩ := h
  rw [tokenize_ok_iff, hgrammar]
  exact ⟨hlimit, (Arithmetic.hookless_reading pattern).parse_of_ends
    (Arithmetic.check_reading pattern) (Arithmetic.entryRules_reading pattern) ⟨1, rfl⟩⟩

/-- A compilation of some tokens lists some. -/
theorem compile_listing_ne_nil {sheet : Sheet} {mode : String} {source : Option String}
    {c : Compile.Compiled} (hne : tokens ≠ [])
    (h : e.compile sheet tokens mode source = .ok c) : c.listing ≠ [] := by
  obtain ⟨job, rfl, hrun⟩ := compile_ok h
  obtain ⟨-, p, hp, -, hsound, rfl⟩ := Compile.Job.run_ok_iff.1 hrun
  refine hsound.listing_ne_nil p fun hnil => hne ?_
  rw [← show p.tokens = job.tokens from hp, hnil]
  rfl

/-- **A compilation that fails points at one of its tokens.** -/
theorem compile_pointsAt {sheet : Sheet} {m : Mode} {source : Option String} {f : Failure}
    (h : e.compile sheet tokens m.name source = .error f) : ∃ t ∈ tokens, f.PointsAt t := by
  rcases compile_rejection h with hmode | ⟨m', hm, hrejection⟩
  · rw [hmode, compile_name] at h
    cases Compile.Job.run_counted.of_error trivial h
  · cases hrejection with
    | compile error =>
      have hlocated := (points_of_compile h).located
      exact ⟨error.token, List.mem_of_getElem? hlocated, .of_compile error⟩
    | count hmem => exact ⟨_, hmem, .of_limit rfl⟩

/-- **How an evaluation of a text fails, and where.** -/
theorem ReadsArithmetic.evaluate_failure_cases (h : e.ReadsArithmetic)
    (hlimits : e.limits = .standard) {m : Mode} {f : Failure}
    (hf : e.evaluate draws text m.name = .error f) :
    (text = "" ∧ f.position = none ∧ f.token? = none) ∨
      (∃ x, f = .limit x ∧ x.which = .expressionLength ∧ x.position = none) ∨
      text ≠ "" ∧ f.PointsInto text := by
  have hsame : 3 ≤ e.limits.sameIndex := by
    rw [hlimits]
    decide
  by_cases hempty : text = ""
  · subst hempty
    have hnone : e.tokenize "" = .ok [] := h.tokenize_empty (by rw [hlimits]; decide)
    rcases evaluate_failure hnone hf with hcompile | ⟨_, c, -, hcompile, hcomplaint⟩
    · obtain ⟨t, ht, -⟩ := compile_pointsAt hcompile
      cases ht
    · rw [List.eq_nil_of_subset_nil (compile_subset hcompile).1] at hcomplaint
      exact .inl ⟨rfl, hcomplaint.nowhere⟩
  · rcases h.tokenize_cases hsame text with ⟨tokens, htokens, hstands⟩ | ⟨-, hlimit⟩ |
      ⟨error, herror, hindex⟩
    · have hne : tokens ≠ [] := by
        rintro rfl
        cases h.tokenize_ends hempty htokens
      refine .inr (.inr ⟨hempty, ?_⟩)
      rcases evaluate_failure htokens hf with hcompile | ⟨_, c, -, hcompile, hcomplaint⟩
      · obtain ⟨t, ht, hpoints⟩ := compile_pointsAt hcompile
        exact hpoints.pointsInto (hstands t ht)
      · obtain ⟨t, ht, hpoints⟩ := hcomplaint.pointsAt (compile_listing_ne_nil hne hcompile)
        exact hpoints.pointsInto (hstands t ht)
    · have hsame := evaluate_of_tokenize_error hlimit draws m.name
      obtain rfl := Except.error.inj (hsame.symm.trans hf)
      exact .inr (.inl ⟨_, rfl, rfl, rfl⟩)
    · have hsame := evaluate_of_tokenize_error herror draws m.name
      obtain rfl := Except.error.inj (hsame.symm.trans hf)
      exact .inr (.inr ⟨hempty, _, rfl, hindex.1, hindex.2, nofun⟩)

/-- Of the limits, only that on the length of a text is exceeded nowhere in particular. -/
theorem position_eq_none {mode : String} {x : LimitExceeded} (hx : x.which = .expressionLength)
    (h : e.evaluate draws text mode = .error (.limit x)) : x.position = none := by
  cases htokens : e.tokenize text with
  | ok tokens =>
    rcases evaluate_failure htokens h with hcompile | ⟨m, c, -, -, hcomplaint⟩
    · rcases compile_rejection hcompile with hmode | ⟨m, -, hrejection⟩
      · cases hmode
      · cases hrejection
        cases hx
    · cases hcomplaint
      cases hx
  | error failure =>
    obtain rfl := Except.error.inj ((evaluate_of_tokenize_error htokens draws mode).symm.trans h)
    rw [tokenize_limit htokens]

/-- **Every failure of an evaluation points into the text.**  Whatever has been registered with a
new engine, a failure has no position exactly if the text is too long to be looked at or is empty;
otherwise the position lies in the text or at its end.  And if the failure is about a token, that
is what stands at the position. -/
theorem evaluate_points {rs : List Registration} (he : standard.registerAll rs = .ok e)
    (draws : Evaluate.Draws) (text : String) (m : Mode) {f : Failure}
    (h : e.evaluate draws text m.name = .error f) :
    (f.position = none ↔ text = "" ∨ ∃ x, f = .limit x ∧ x.which = .expressionLength) ∧
    (∀ position, f.position = some position → 0 ≤ position ∧ position ≤ text.length) ∧
    ∀ t, f.token? = some t → f.position = some t.pos ∧
      (text.toList.drop t.pos.toNat).take t.text.length = t.text.toList := by
  have hregistered : e.Registered := ⟨.standard, rs, he⟩
  rcases hregistered.readsArithmetic.evaluate_failure_cases (limits_registerAll he) h with
    ⟨rfl, hposition, htoken⟩ | ⟨x, rfl, hwhich, hposition⟩ | ⟨hne, position, hposition, hplace⟩
  · rw [hposition, htoken]
    exact ⟨by simp, nofun, nofun⟩
  · rw [Failure.position, hposition]
    exact ⟨by simp [hwhich], nofun, nofun⟩
  · rw [hposition]
    refine ⟨⟨nofun, ?_⟩, ?_, fun t ht => ?_⟩
    · rintro (hempty | ⟨x, rfl, hx⟩)
      · exact absurd hempty hne
      · exact hposition.symm.trans (position_eq_none hx h)
    · rintro _ ⟨⟩
      exact ⟨hplace.1, hplace.2.1⟩
    · obtain ⟨rfl, htext⟩ := hplace.2.2 t ht
      exact ⟨rfl, htext⟩

/-- In `y + max(2, x)`, where `y` is a new constant, the other name is not known, and it stands at
the offset that is pointed at. -/
theorem evaluate_points_name : ∃ e f, standard.registerAll [.constant "y" 1] = .ok e ∧
    e.evaluate (fun _ _ => 0) "y + max(2, x)" "rpn" = .error f ∧
      f.position = some 11 ∧ ("y + max(2, x)".toList.drop 11).take 1 = ['x'] := by
  let e := standard.registerConstant "y" 1
  have he : standard.registerAll [.constant "y" 1] = .ok e := rfl
  have htoken : (match e.evaluate (fun _ _ => 0) "y + max(2, x)" "rpn" with
      | .error f => f.token?
      | .ok _ => none) = some ⟨.constant, "x", 11, 6⟩ := by decide +kernel
  cases hresult : e.evaluate (fun _ _ => 0) "y + max(2, x)" "rpn" with
  | ok value =>
    rw [hresult] at htoken
    cases htoken
  | error f =>
    rw [hresult] at htoken
    obtain ⟨hposition, hstands⟩ :=
      (evaluate_points he _ "y + max(2, x)" .rpn hresult).2.2 _ htoken
    exact ⟨e, f, he, hresult, hposition, hstands⟩

end Engine

end Polish
