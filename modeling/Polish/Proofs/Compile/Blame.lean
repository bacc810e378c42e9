import Polish.Engine
import Polish.Proofs.Compile.Operations

/-!
# What a compilation blames

A compilation that fails says what is wrong with its tokens.  `Blames now blame c` says that
whatever the computation `c` blames is to blame.  It goes through a sequence of computations
(`Blames.bind`), and each operation of the compiler has its lemma.

`Job.run_founded` — a compilation blames an operator symbol only if some operator token has it and
it is not registered, and it misses the bracket of a call only if some call has none behind it.  The
second half needs more than a look at one token in the scan from the right, which knows of a call's
bracket only that it has been there before: `State.pending` is kept until the call is scanned.

## How the proof goes

Most operations blame nothing that is asked about here, and their lemmas say so by a case split over
the branches that fail.  In the scan from the left the two that do blame have the reason at hand: an
operator is looked up where it is scanned, and the token after a call is its neighbour.

From the right, the list is taken in the order of the source all the same, since the scan of a list
from behind ends with its first token.  The invariant of `scan_founded_backward` is about the state
that is reached there: if the first token is an opening bracket and the token before it a call, then
a group is pending.  It holds because a bracket is put by exactly if there is a call before it
(`completeGroup_pending`), and it is all that the branch for calls needs.
-/

set_option autoImplicit false

namespace Polish.Compile

variable {α β : Type} {job : Job} {now : Surroundings} {blame : CompileError → Prop}
  {place : Place} {s : State} {group : Group}

/-! ## Blame -/

/-- Whatever the computation blames is to blame. -/
def Blames (now : Surroundings) (blame : CompileError → Prop) (c : Run α) : Prop :=
  ∀ e, c.eager now = .error (.compile e) → blame e

namespace Blames

theorem of_ok {c : Run α} {a : α} (h : c.eager now = .ok a) : Blames now blame c := by
  intro e he
  rw [h] at he
  cases he

theorem of_stop {defect : Defect} {index : Nat} {token : Token}
    (h : blame ⟨defect, index, token, job.source⟩) :
    Blames now blame (job.stop defect index token : Run α) := by
  intro e he
  exact Failure.compile.inj (Except.error.inj he) ▸ h

theorem bind {c : Run α} {f : α → Run β} (hc : Blames now blame c)
    (hf : ∀ a, c.eager now = .ok a → Blames now blame (f a)) : Blames now blame (c.bind f) := by
  intro e he
  rw [Stepwise.eager_bind] at he
  cases h : c.eager now with
  | ok a =>
    rw [h] at he
    exact hf a h e he
  | error failure =>
    rw [h] at he
    exact hc e (by rw [h]; exact congrArg _ (Except.error.inj he))

end Blames

namespace Job

/-! ## Operations -/

theorem blames_pushOperator (h : now.registries.operators.find? place.token.text = none →
      blame ⟨.unknownOperator place.token.text, place.index, place.token, job.source⟩) :
    Blames now blame (job.pushOperator s place) := by
  cases hfind : now.registries.operators.find? place.token.text with
  | none =>
    intro e he
    rw [pushOperator, Stepwise.eager_look, hfind] at he
    exact Blames.of_stop (h hfind) e he
  | some operator => exact .of_ok (pushOperator_ok.2 ⟨operator, hfind, rfl⟩)

theorem blames_popUntil {kind : Kind} {unmatched : Defect}
    (h : blame ⟨unmatched, place.index, place.token, job.source⟩) (stack output : List Token) :
    Blames now blame (job.popUntil place kind unmatched stack output) := by
  induction stack generalizing output with
  | nil => exact .of_stop h
  | cons top below ih =>
    rw [popUntil]
    split
    · exact .of_ok rfl
    · exact ih _

theorem blames_closeGroup {kind : Kind} {unmatched : Defect}
    (h : blame ⟨unmatched, place.index, place.token, job.source⟩) :
    Blames now blame (job.closeGroup s place kind unmatched) := by
  refine (blames_popUntil h _ _).bind fun ⟨output, operators⟩ _ => ?_
  dsimp only
  split
  · exact .of_ok rfl
  · exact .of_stop h

theorem blames_checkNotEmpty
    (h : blame ⟨.emptyBrackets, group.index, group.bracket, job.source⟩) :
    Blames now blame (job.checkNotEmpty s group) := by
  rw [checkNotEmpty]
  split
  · exact .of_stop h
  · exact .of_ok rfl

theorem blames_checkCount (owner : Token) (count : Nat) :
    Blames now blame (job.checkCount owner count) := by
  rw [checkCount]
  split
  · rintro _ ⟨⟩
  · exact .of_ok rfl

theorem blames_checkCounts (owner : Token) (count : Nat) :
    Blames now blame (job.checkCounts owner count) := by
  have hfold (indices : List Nat) (start : Run Unit) (hstart : Blames now blame start) :
      Blames now blame
        (indices.foldl (fun run i => run.bind fun _ => job.checkCount owner (i + 1)) start) := by
    induction indices generalizing start with
    | nil => exact hstart
    | cons i indices ih => exact ih _ (hstart.bind fun _ _ => blames_checkCount owner _)
  exact hfold _ _ (.of_ok rfl)

theorem blames_closeCall (owner : Token)
    (h : blame ⟨.emptyArgument, place.index, place.token, job.source⟩) :
    Blames now blame (job.closeCall s place owner group) := by
  rw [closeCall]
  dsimp only
  split
  · split
    · exact .of_ok rfl
    · exact .of_stop h
  · exact (blames_checkCount owner _).bind fun _ _ => .of_ok rfl

theorem blames_endArgument {around : List Group} (owner : Token)
    (h : ∀ defect, defect = .unmatchedSeparator ∨ defect = .emptyArgument →
      blame ⟨defect, place.index, place.token, job.source⟩) :
    Blames now blame (job.endArgument s place group around owner) := by
  refine (blames_popUntil (h _ (.inl rfl)) _ _).bind fun ⟨output, operators⟩ _ => ?_
  dsimp only
  split
  · exact .of_stop (h _ (.inr rfl))
  · exact (blames_checkCount owner _).bind fun _ _ => .of_ok rfl

theorem blames_endSegment {around : List Group}
    (h : ∀ defect, defect = .unmatchedSeparator ∨ defect = .emptyArgument →
      blame ⟨defect, place.index, place.token, job.source⟩) :
    Blames now blame (job.endSegment s place group around) := by
  refine (blames_popUntil (h _ (.inl rfl)) _ _).bind fun ⟨output, operators⟩ _ => ?_
  dsimp only
  split
  · exact .of_stop (h _ (.inr rfl))
  · exact .of_ok rfl

theorem blames_collectArguments
    (h : blame ⟨.emptyArgument, group.index, group.bracket, job.source⟩) :
    Blames now blame (job.collectArguments s place group) := by
  rw [collectArguments]
  dsimp only
  split
  · exact .of_stop h
  · exact (blames_checkCounts _ _).bind fun _ _ => .of_ok rfl

end Job

/-! ## Single tokens -/

/-- What has to be so of some tokens for a defect to be found in them, as far as operators and the
brackets of calls go. -/
def Founded (now : Surroundings) (tokens : List Token) (e : CompileError) : Prop :=
  match e.defect with
  | .unknownOperator symbol => now.registries.operators.find? symbol = none ∧
      ∃ t ∈ tokens, t.kind = .operator ∧ t.text = symbol
  | .noBracketAfterCall => ∃ place ∈ places tokens, place.token.kind = .call ∧
      isKind .openBracket place.after = false
  | _ => True

namespace Job

theorem visitForward_founded (hplace : place ∈ places job.tokens) :
    Blames now (Founded now job.tokens) (job.visitForward s place) := by
  rw [visitForward]
  cases hk : place.token.kind with
  | number | constant | openBracket => exact .of_ok rfl
  | other => exact .of_stop trivial
  | operator =>
    exact blames_pushOperator fun hnone => ⟨hnone, _, mem_of_mem_places hplace, hk, rfl⟩
  | call =>
    refine (Blames.of_ok rfl).bind fun s _ => ?_
    by_cases hafter : isKind .openBracket place.after = true
    · rw [if_pos hafter]
      exact .of_ok rfl
    · rw [if_neg hafter]
      exact .of_stop ⟨place, hplace, hk, by simpa using hafter⟩
  | closeBracket =>
    refine (blames_closeGroup trivial).bind fun result _ => ?_
    obtain ⟨group, s⟩ := result
    dsimp only
    split
    · exact (blames_checkNotEmpty trivial).bind fun _ _ => .of_ok rfl
    · exact blames_closeCall _ trivial
  | separator =>
    dsimp only
    split
    · exact .of_stop trivial
    · split
      · exact .of_stop trivial
      · exact blames_endArgument _ fun defect h => by rcases h with rfl | rfl <;> trivial

/-- The bracket of a call is pending until the call is scanned. -/
theorem completeGroup_pending {s' : State} (h : (job.completeGroup s place).eager now = .ok s')
    (hcall : isKind .call place.before = true) : s'.pending ≠ none := by
  rw [completeGroup, Stepwise.bind_eq] at h
  obtain ⟨⟨group, t⟩, -, h⟩ := Stepwise.eager_bind_ok.1 h
  dsimp only at h
  rw [if_pos hcall] at h
  obtain rfl := Except.ok.inj h
  exact Option.some_ne_none _

theorem blames_completeGroup
    (h : ∀ defect index token, defect = .unmatchedOpen ∨ defect = .separatorOutside ∨
      defect = .emptyBrackets → blame ⟨defect, index, token, job.source⟩) :
    Blames now blame (job.completeGroup s place) := by
  refine (blames_closeGroup (h _ _ _ (.inl rfl))).bind fun ⟨group, s⟩ _ => ?_
  dsimp only
  split
  · exact .of_ok rfl
  · split
    · exact .of_stop (h _ _ _ (.inr (.inl rfl)))
    · exact (blames_checkNotEmpty (h _ _ _ (.inr (.inr rfl)))).bind fun _ _ => .of_ok rfl

theorem visitBackward_founded (hplace : place ∈ places job.tokens)
    (hpending : place.token.kind = .call → isKind .openBracket place.after = true →
      s.pending ≠ none) :
    Blames now (Founded now job.tokens) (job.visitBackward s place) := by
  rw [visitBackward]
  cases hk : place.token.kind with
  | number | constant | closeBracket => exact .of_ok rfl
  | other => exact .of_stop trivial
  | operator =>
    exact blames_pushOperator fun hnone => ⟨hnone, _, mem_of_mem_places hplace, hk, rfl⟩
  | call =>
    dsimp only
    cases hs : s.pending with
    | none =>
      refine .of_stop ⟨place, hplace, hk, ?_⟩
      rw [Bool.eq_false_iff]
      exact fun hafter => hpending hk hafter hs
    | some group => exact (blames_collectArguments trivial).bind fun _ _ => .of_ok rfl
  | openBracket =>
    exact blames_completeGroup fun defect _ _ h => by rcases h with rfl | rfl | rfl <;> trivial
  | separator =>
    dsimp only
    split
    · exact .of_stop trivial
    · exact blames_endSegment fun defect h => by rcases h with rfl | rfl <;> trivial

/-! ## Whole scans -/

theorem scan_append (xs ys : List Place) (s : State) :
    job.scan (xs ++ ys) s = (job.scan xs s).bind (job.scan ys) := by
  induction xs generalizing s with
  | nil => rfl
  | cons x xs ih =>
    rw [List.cons_append, scan, scan, Stepwise.bind_eq, Stepwise.bind_eq, Stepwise.bind_assoc]
    exact congrArg _ (funext ih)

theorem scan_founded_forward (hm : job.mode = .rpn) {ps : List Place}
    (hps : ∀ place ∈ ps, place ∈ places job.tokens) :
    Blames now (Founded now job.tokens) (job.scan ps s) := by
  induction ps generalizing s with
  | nil => exact .of_ok rfl
  | cons place rest ih =>
    rw [scan, visit, hm]
    exact (visitForward_founded (hps place List.mem_cons_self)).bind fun _ _ =>
      ih fun p hp => hps p (List.mem_cons_of_mem _ hp)

/-- From the right, the bracket of a call is pending when what is left begins with the call. -/
theorem scan_founded_backward (hm : job.mode = .pn) {before : Option Token} {index : Nat}
    {tokens : List Token}
    (hps : ∀ place ∈ placesFrom before index tokens, place ∈ places job.tokens) :
    Blames now (Founded now job.tokens) (job.scan (placesFrom before index tokens).reverse s) ∧
      ∀ s', (job.scan (placesFrom before index tokens).reverse s).eager now = .ok s' →
        isKind .openBracket tokens.head? = true → isKind .call before = true →
          s'.pending ≠ none := by
  induction tokens generalizing before index with
  | nil => exact ⟨.of_ok rfl, fun _ _ h => by cases h⟩
  | cons t rest ih =>
    let place : Place := ⟨t, index, before, rest.head?⟩
    obtain ⟨hblames, hpending⟩ := ih fun p hp => hps p (List.mem_cons_of_mem _ hp)
    rw [placesFrom, List.reverse_cons, scan_append]
    have hlast (u : State) : job.scan [place] u = job.visitBackward u place := by
      rw [scan, visit, hm]
      exact Stepwise.bind_answer _
    refine ⟨hblames.bind fun u hu => ?_, fun s' hs' hopen hcall => ?_⟩
    · rw [hlast]
      refine visitBackward_founded (hps _ List.mem_cons_self) fun hk hafter => ?_
      exact hpending u hu hafter (by simpa [isKind, place] using hk)
    · obtain ⟨u, -, hu⟩ := Stepwise.eager_bind_ok.1 hs'
      rw [hlast, visitBackward] at hu
      have hk : t.kind = .openBracket := by simpa [isKind] using hopen
      simp only [place, hk] at hu
      exact completeGroup_pending hu hcall

/-- **A compilation blames no operator and no call without a reason.** -/
theorem run_founded : Blames now (Founded now job.tokens) job.run := by
  refine Blames.bind ?_ fun _ _ => Blames.bind ?_ fun s _ => Blames.bind ?_ fun _ _ =>
    (Blames.of_ok (flush_eager _ _)).bind fun _ _ => .of_ok rfl
  · rw [checkFresh]
    intro e he
    rw [Stepwise.eager_look] at he
    split at he
    · exact Blames.of_stop trivial e he
    · cases he
  · cases hm : job.mode with
    | rpn => exact scan_founded_forward hm fun _ h => h
    | pn => exact (scan_founded_backward hm fun _ h => h).1
  · rw [checkClosed]
    split
    · exact .of_ok rfl
    · cases hm : job.mode with
      | rpn => exact .of_stop trivial
      | pn => exact .of_stop trivial

end Job

end Polish.Compile

namespace Polish.Engine

open Compile

/-- What an engine's compiler blames is to blame. -/
theorem compile_founded {e : Engine} {sheet : Sheet} {tokens : List Token} {mode : String}
    {source : Option String} {error : CompileError}
    (h : e.compile sheet tokens mode source = .error (.compile error)) :
    Founded (e.surroundings sheet) tokens error := by
  rw [compile, compilation] at h
  cases hmode : modeNamed mode with
  | error failure =>
    rw [hmode] at h
    rw [modeNamed] at hmode
    split at hmode
    · cases hmode
    · obtain rfl := Except.error.inj hmode
      cases h
  | ok m =>
    rw [hmode] at h
    exact Job.run_founded error h

end Polish.Engine
