import Polish.Proofs.Compile.Contents
import Polish.Proofs.Compile.Counts
import Polish.Proofs.Compile.Expression
import Polish.Proofs.Evaluate.Complaints
import Polish.Proofs.Evaluate.Unknown

/-!
# How an engine fails

An engine fails over a notation that it does not know, or one of its stages fails.  A compilation
makes what the evaluation meets out of its own tokens, so that whatever goes wrong in either of them
is about a token of the text.

* `Engine.compile_rejection`, `Engine.evaluateListing_complaint` — the failures of single stages;
* `Engine.closed_of_compile` — what a compilation leaves on the sheet leads from its tokens to its
  tokens;
* `Engine.evaluate_failure` — all failures of an evaluation of a text with tokens.

## How the proof goes

The stages are independent of each other, so each gets one theorem that lists its failures, and an
evaluation of a text is taken apart along its definition.  What connects them is the sheet.  The
evaluator follows it wherever it leads, and `closed_of_compile` says that after a compilation it
leads from tokens of the list to tokens of the list, because everything that is attached has been
moved there from the list.  The theorem about the evaluator holds for any class of tokens that the
sheet does not lead out of, and here that class is the tokens of the text.
-/

set_option autoImplicit false

namespace Polish.Engine

open Compile (Rejection)
open Evaluate.Job (Complaint)

variable {e : Engine} {draws : Evaluate.Draws} {sheet : Sheet} {tokens listing : List Token}
  {mode text : String} {source : Option String} {failure : Failure} {c : Compile.Compiled}

/-! ## Single stages -/

/-- A notation exists or is refused. -/
theorem modeNamed_cases (mode : String) :
    (∃ m : Mode, mode = m.name) ∨ modeNamed mode = .error (.mode mode) := by
  cases h : Mode.ofName? mode with
  | some m => exact .inl ⟨m, (Mode.name_of_ofName? h).symm⟩
  | none =>
    rw [modeNamed, h]
    exact .inr rfl

theorem compile_cases (e : Engine) (sheet : Sheet) (tokens : List Token) (mode : String)
    (source : Option String) :
    (∃ m : Mode, mode = m.name) ∨ e.compile sheet tokens mode source = .error (.mode mode) := by
  refine (modeNamed_cases mode).imp_right fun hmode => ?_
  rw [compile, compilation, hmode]
  rfl

theorem evaluateListing_cases (e : Engine) (draws : Evaluate.Draws) (sheet : Sheet)
    (listing : List Token) (mode : String) (source : Option String) :
    (∃ m : Mode, mode = m.name) ∨
      e.evaluateListing draws sheet listing mode source = .error (.mode mode) := by
  refine (modeNamed_cases mode).imp_right fun hmode => ?_
  rw [evaluateListing, evaluation, hmode]
  rfl

/-- **How a compilation fails.** -/
theorem compile_rejection (h : e.compile sheet tokens mode source = .error failure) :
    failure = .mode mode ∨
      ∃ m : Mode, mode = m.name ∧ Rejection ⟨m, e.limits, source, tokens⟩ failure := by
  rcases e.compile_cases sheet tokens mode source with ⟨m, rfl⟩ | hmode
  · rw [compile_name] at h
    exact .inr ⟨m, rfl, Compile.Job.run_counted.of_error trivial h⟩
  · exact .inl (Except.error.inj (h.symm.trans hmode))

/-- The arguments that a call has after a compilation have been attached by it. -/
theorem mem_attached_of_compile (h : e.compile sheet tokens mode source = .ok c) {t : Token}
    (ht : t ∈ tokens) (hk : t.kind = .call) {args : List (List Token)}
    (hargs : (sheet.attachAll c.attached).args? t.handle = some args) :
    (t.handle, args) ∈ c.attached := by
  obtain ⟨job, rfl, hrun⟩ := compile_ok h
  have hfresh : sheet.args? t.handle = none := (Compile.Job.run_ok_iff.1 hrun).1 t ht hk
  refine (Sheet.mem_of_args?_attachAll hargs).resolve_right fun hbefore => ?_
  rw [hfresh] at hbefore
  cases hbefore

/-- **What a compilation leaves on the sheet** leads from its tokens to no other ones. -/
theorem closed_of_compile (h : e.compile sheet tokens mode source = .ok c) :
    (sheet.attachAll c.attached).Closed (· ∈ tokens) :=
  fun _ ht hk _ hargs list hlist _ hu =>
    (compile_subset h).2 _ (mem_attached_of_compile h ht hk hargs) list hlist hu

/-- **How the evaluation of a listing fails** if its tokens are of some sort. -/
theorem evaluateListing_complaint {listed : Token → Prop} (hsheet : sheet.Closed listed)
    (hlisting : ∀ t ∈ listing, listed t)
    (h : e.evaluateListing draws sheet listing mode source = .error failure) :
    failure = .mode mode ∨
      ∃ m : Mode, mode = m.name ∧
        Complaint ⟨m, e.limits, source, draws⟩ listed listing failure := by
  rcases e.evaluateListing_cases draws sheet listing mode source with ⟨m, rfl⟩ | hmode
  · rw [evaluateListing_name] at h
    exact .inr ⟨m, rfl, Evaluate.Job.run_complaint hsheet hlisting h⟩
  · exact .inl (Except.error.inj (h.symm.trans hmode))

/-! ## Texts -/

/-- Before an evaluation, a name that is not known is complained about as it would be later on. -/
theorem complaint_unknownName {m : Mode} {whole : List Token} {t : Token}
    (h : e.registries.firstUnknown? tokens = some t) :
    Complaint ⟨m, e.limits, some text, draws⟩ (· ∈ tokens) whole (unknownName t text) := by
  obtain ⟨hmem, hunknown⟩ := Registries.mem_of_firstUnknown? h
  have hcause : (EvalCause.ofUnknown t).Concerns t := by
    rw [EvalCause.ofUnknown]
    cases hk : t.kind with
    | constant => exact ⟨hk, rfl⟩
    | call => exact ⟨hk, rfl⟩
    | number | operator | openBracket | closeBracket | separator | other =>
      rw [Registries.knows, hk] at hunknown
      cases hunknown
  exact .stop [] hmem hcause

/-- A text without tokens is not evaluated. -/
theorem evaluate_of_tokenize_error (h : e.tokenize text = .error failure)
    (draws : Evaluate.Draws) (mode : String) : e.evaluate draws text mode = .error failure := by
  rw [evaluate, h]
  rfl

/-- **How an evaluation of a text with tokens fails**: the notation does not exist, the tokens
cannot be compiled, or what is wrong is about one of them. -/
theorem evaluate_failure (htokens : e.tokenize text = .ok tokens)
    (h : e.evaluate draws text mode = .error failure) :
    e.compile .empty tokens mode (some text) = .error failure ∨
      ∃ (m : Mode) (c : Compile.Compiled), mode = m.name ∧
        e.compile .empty tokens mode (some text) = .ok c ∧
        Complaint ⟨m, e.limits, some text, draws⟩ (· ∈ tokens) c.listing failure := by
  simp only [evaluate, htokens, bind, Except.bind] at h
  cases hcompile : e.compile .empty tokens mode (some text) with
  | error other =>
    simp only [hcompile] at h
    exact .inl (congrArg _ (Except.error.inj h))
  | ok c =>
    simp only [hcompile] at h
    rcases e.compile_cases .empty tokens mode (some text) with ⟨m, rfl⟩ | hmode
    · refine .inr ⟨m, c, rfl, rfl, ?_⟩
      cases hunknown : e.registries.firstUnknown? tokens with
      | some t =>
        simp only [hunknown] at h
        exact Except.error.inj h ▸ complaint_unknownName hunknown
      | none =>
        simp only [hunknown, evaluateListing_name] at h
        exact Evaluate.Job.run_complaint (closed_of_compile hcompile)
          (fun t ht => (compile_subset hcompile).1 ht) h
    · cases hmode.symm.trans hcompile

end Polish.Engine
