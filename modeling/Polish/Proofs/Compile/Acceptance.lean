import Polish.Engine
import Polish.Proofs.Compile.Backward

/-!
# Which token lists compile

`Compile.Job.run_ok_iff` — a compilation succeeds exactly for new tokens that are the writing of a
sound phrase, and its result is the listing of that phrase and the arguments attached on the way.
Everything that is proved about whole compilations starts from here.

`Engine.compiles_iff_acceptable` — so an engine compiles the same token lists in both notations,
namely the acceptable ones.

That the brackets of an accepted list match follows from `Scans.depth_forward` and
`Scans.depth_backward`; from then on the list has a shape, and the two scans of phrases apply.

## How the proof goes

A compilation is taken apart into what is asked of the tokens beforehand (`checkFresh_ok`), the
scan, and what is asked of the state afterwards (`checkClosed_ok`).  The scan is where the work is.
What it makes of the writing of a phrase is known from the two modules about the scans, and a list
is the writing of a phrase as soon as its brackets match.  So it remains to be seen that no scan
succeeds over brackets that do not.  `balanced_of_scans` counts: the number of open groups is the
depth of the brackets so far, the scan of a beginning of the list is a scan too, and a number is
never negative.

Phrases do not have separators outside of all brackets, and balanced lists may.  `not_scans_more`
rules these out, once for each direction, since the scan comes to the separator from another side.
-/

set_option autoImplicit false

namespace Polish

namespace Compile

open Stepwise (eager_bind_ok eager_bind_of_ok)

variable {job : Job} {now : Surroundings} {s t : State}

/-! ## Before and after the scan -/

/-- Whether a call in a token list has arguments already is asked of the tokens alone. -/
theorem checkFresh_ok {u : Unit} :
    job.checkFresh.eager now = .ok u ↔
      ∀ t ∈ job.tokens, t.kind = .call → now.sheet.args? t.handle = none := by
  have hfirst : job.firstCompiled? now.sheet = none ↔
      ∀ t ∈ job.tokens, t.kind = .call → now.sheet.args? t.handle = none := by
    rw [Job.firstCompiled?, places, placesFrom_eq, List.find?_eq_none]
    conv => rhs; rw [← map_token_placesIn none none 0 job.tokens]
    simp
  rw [← hfirst, Job.checkFresh, Stepwise.eager_look]
  cases job.firstCompiled? now.sheet with
  | none => simp
  | some place => simp

theorem checkClosed_ok {u : Unit} :
    (job.checkClosed s).eager now = .ok u ↔ s.groups = [] := by
  rw [Job.checkClosed]
  cases s.groups with
  | nil => simp
  | cons group around => simp

/-! ## The scan of a whole list -/

/-- A scan that leaves no group open was over matching brackets. -/
theorem balanced_of_scans
    (h : Scans job now .start (job.mode.scanOrder (placesIn none 0 job.tokens none)) s)
    (hs : s.groups = []) : Balanced job.tokens := by
  have length_nonneg (v : State) : (0 : Int) ≤ v.groups.length := Int.natCast_nonneg _
  cases hm : job.mode with
  | rpn =>
    rw [hm, Mode.scanOrder] at h
    have htotal := h.depth_forward hm
    rw [hs] at htotal
    refine ⟨fun p hp => ?_, by simpa [State.start] using htotal.symm⟩
    -- After any prefix as many frames are open as it leaves brackets open.
    obtain ⟨q, hq⟩ := hp
    rw [← hq, placesIn_append, scans_append] at h
    obtain ⟨v, hv, -⟩ := h
    have hdepth := hv.depth_forward hm
    have := length_nonneg v
    simp only [State.start, List.length_nil] at hdepth
    omega
  | pn =>
    rw [hm, Mode.scanOrder] at h
    have htotal := h.depth_backward hm
    rw [hs] at htotal
    simp only [State.start, List.length_nil] at htotal
    refine ⟨fun p hp => ?_, by omega⟩
    obtain ⟨q, hq⟩ := hp
    rw [← hq, placesIn_append, List.reverse_append, scans_append] at h
    obtain ⟨v, hv, -⟩ := h
    have hdepth := hv.depth_backward hm
    have := length_nonneg v
    rw [← hq, excess_append] at htotal
    simp only [State.start, List.length_nil] at hdepth
    omega

theorem visitBackward_separator_outside {u : Token} {i : Nat} {before after : Option Token}
    (hm : job.mode = .pn) (hk : u.kind = .separator) (h : s.groups = []) :
    (job.visit s ⟨u, i, before, after⟩).eager now ≠ .ok t := by
  rw [Job.visit, hm]
  simp [Job.visitBackward, hk, h]

/-- A separator outside of all brackets cannot be scanned. -/
theorem not_scans_more {p : Phrase} {sep : Token} {rest : Phrases}
    (hmatched : (Phrases.more p sep rest).Matched) :
    ¬ Scans job now .start
      (job.mode.scanOrder (placesIn none 0 (Phrases.more p sep rest).tokens none)) s := by
  have groups_nil (v : State) (h : (v.groups.length : Int) = 0) : v.groups = [] :=
    List.length_eq_zero_iff.1 (by omega)
  intro h
  rw [Phrases.tokens, placesIn_append, placesIn] at h
  cases hm : job.mode with
  | rpn =>
    rw [hm, Mode.scanOrder, scans_append] at h
    obtain ⟨v, hv, h⟩ := h
    obtain ⟨w, hw, -⟩ := scans_cons.1 h
    have hdepth := hv.depth_forward hm
    rw [hmatched.1.balanced.excess_eq] at hdepth
    exact visitForward_separator_outside hm hmatched.2.1 (by simp [groups_nil v hdepth]) hw
  | pn =>
    rw [hm, Mode.scanOrder, List.reverse_append, List.reverse_cons, List.append_assoc,
      scans_append] at h
    obtain ⟨v, hv, h⟩ := h
    obtain ⟨w, hw, -⟩ := scans_cons.1 h
    have hdepth := hv.depth_backward hm
    rw [hmatched.2.2.balanced.excess_eq] at hdepth
    exact visitBackward_separator_outside hm hmatched.2.1 (groups_nil v hdepth) hw

/-- Scanned on its own, a phrase becomes the run of its pieces exactly if it is sound. -/
theorem scans_phrase {p : Phrase} (hp : p.Matched) :
    Scans job now .start (job.mode.scanOrder (placesIn none 0 p.tokens none)) s ↔
      p.Sound now.registries.operators job.limits.functionArgs ∧
        s = State.start.extend
          (Yard.empty.run job.mode now.registries.operators
            (job.mode.scanOrder (p.pieces job.mode now.registries.operators)))
          (p.entries job.mode now.registries.operators) := by
  have hs : State.start.Resting := by simp [State.Resting, State.start]
  cases hm : job.mode with
  | rpn =>
    exact Phrase.scans_forward hm p hp .start .empty [] none none 0 s hs Yard.proper_empty
      rfl (by simp [isKind])
  | pn =>
    exact Phrase.scans_backward hm p hp .start .empty [] none none 0 s hs Yard.proper_empty
      rfl (by simp [isKind])

/-! ## Whole compilations -/

/-- **What a compilation needs and what it gives**: the tokens have to be new and the writing of a
sound phrase, and the result is the listing of the phrase with the arguments of its calls. -/
theorem Job.run_ok_iff {c : Compiled} :
    job.run.eager now = .ok c ↔
      (∀ t ∈ job.tokens, t.kind = .call → now.sheet.args? t.handle = none) ∧
        ∃ p : Phrase, p.tokens = job.tokens ∧ p.Matched ∧
          p.Sound now.registries.operators job.limits.functionArgs ∧
          c = ⟨p.listing job.mode now.registries.operators,
            p.entries job.mode now.registries.operators,
            (now.registries.firstUnknown? job.tokens).isNone⟩ := by
  have hscan : (∃ u, job.checkFresh.eager now = .ok u ∧
      ∃ s, Scans job now .start (job.mode.scanOrder (placesIn none 0 job.tokens none)) s ∧
        s.groups = [] ∧ c = ⟨job.mode.inOrder (s.operators.reverse ++ s.output),
          s.attached.reverse, (now.registries.firstUnknown? job.tokens).isNone⟩) ↔
      job.run.eager now = .ok c := by
    simp only [Job.run, Stepwise.bind_eq, eager_bind_ok, checkClosed_ok, flush_eager, ok_eq_ok,
      exists_eq_left, Stepwise.surroundings, Stepwise.eager_look, Stepwise.eager_answer,
      Stepwise.pure_eq, places, placesFrom_eq, Scans]
    simp
  rw [← hscan]
  constructor
  · rintro ⟨u, hfresh, s, hs, hgroups, rfl⟩
    refine ⟨checkFresh_ok.1 hfresh, ?_⟩
    -- The list has a shape as soon as its brackets match, and they do if no frame is left over.
    obtain ⟨ps, hps, hmatched⟩ := (balanced_of_scans hs hgroups).exists_phrases
    rw [← hps] at hs
    cases ps with
    | more p sep rest => exact (not_scans_more hmatched hs).elim
    | last p =>
      obtain ⟨hsound, rfl⟩ := (scans_phrase hmatched).1 hs
      refine ⟨p, hps, hmatched, hsound, ?_⟩
      simp [State.extend, State.start, Phrase.listing, Yard.listing, Yard.flushed]
  · rintro ⟨hfresh, p, hp, hmatched, hsound, rfl⟩
    have hs := (scans_phrase hmatched).2 ⟨hsound, rfl⟩
    rw [hp] at hs
    refine ⟨(), checkFresh_ok.2 hfresh, _, hs, rfl, ?_⟩
    simp [State.extend, State.start, Phrase.listing, Yard.listing, Yard.flushed]

end Compile

namespace Engine

/-- An engine's compilation in a notation that exists is the compilation as such. -/
theorem compilation_name (e : Engine) (tokens : List Token) (m : Mode) (source : Option String) :
    e.compilation tokens m.name source
      = .ok (Compile.Job.run ⟨m, e.limits, source, tokens⟩) := by
  rw [compilation, modeNamed, Mode.ofName?_name]
  rfl

theorem compile_name (e : Engine) (sheet : Sheet) (tokens : List Token) (m : Mode)
    (source : Option String) :
    e.compile sheet tokens m.name source
      = (Compile.Job.run ⟨m, e.limits, source, tokens⟩).eager (e.surroundings sheet) := by
  rw [compile, compilation_name]
  rfl

/-- A compilation that begins is that of a job for the tokens. -/
theorem compilation_cases (e : Engine) (tokens : List Token) (mode : String)
    (source : Option String) : (∃ failure, e.compilation tokens mode source = .error failure) ∨
      ∃ job : Compile.Job, job.tokens = tokens ∧
        e.compilation tokens mode source = .ok job.run := by
  rw [compilation, modeNamed]
  cases Mode.ofName? mode with
  | none => exact .inl ⟨_, rfl⟩
  | some m => exact .inr ⟨⟨m, e.limits, source, tokens⟩, rfl, rfl⟩

/-- A compilation by an engine is a compilation in some notation. -/
theorem compile_ok {e : Engine} {sheet : Sheet} {tokens : List Token} {mode : String}
    {source : Option String} {c : Compile.Compiled}
    (h : e.compile sheet tokens mode source = .ok c) :
    ∃ job : Compile.Job, job.tokens = tokens ∧ job.run.eager (e.surroundings sheet) = .ok c := by
  rcases e.compilation_cases tokens mode source with ⟨failure, hfailure⟩ | ⟨job, htokens, hjob⟩
  · rw [compile, hfailure] at h
    cases h
  · rw [compile, hjob] at h
    exact ⟨job, htokens, h⟩

/-- What an engine needs for a compilation and what it gives. -/
theorem compile_ok_iff {e : Engine} {sheet : Sheet} {tokens : List Token} {m : Mode}
    {source : Option String} {c : Compile.Compiled} :
    e.compile sheet tokens m.name source = .ok c ↔
      (∀ t ∈ tokens, t.kind = .call → sheet.args? t.handle = none) ∧
        ∃ p : Phrase, p.tokens = tokens ∧ p.Matched ∧
          p.Sound e.registries.operators e.limits.functionArgs ∧
          c = ⟨p.listing m e.registries.operators, p.entries m e.registries.operators,
            (e.registries.firstUnknown? tokens).isNone⟩ := by
  rw [compile_name]
  exact Compile.Job.run_ok_iff

/-- **An engine compiles the same token lists in both notations**, and it compiles exactly the
acceptable ones. -/
theorem compiles_iff_acceptable (e : Engine) (sheet : Sheet) (tokens : List Token)
    (source : Option String) (h0 : 0 ≤ e.limits.functionArgs) :
    ((∃ c, e.compile sheet tokens "rpn" source = .ok c) ↔
        ∃ c, e.compile sheet tokens "pn" source = .ok c) ∧
      ((∃ c, e.compile sheet tokens "rpn" source = .ok c) ↔
        Acceptable (e.surroundings sheet) e.limits.functionArgs tokens) ∧
      ((∃ c, e.compile sheet tokens "pn" source = .ok c) ↔
        Acceptable (e.surroundings sheet) e.limits.functionArgs tokens) := by
  have key (m : Mode) : (∃ c, e.compile sheet tokens m.name source = .ok c) ↔
      Acceptable (e.surroundings sheet) e.limits.functionArgs tokens := by
    simp only [compile_ok_iff, acceptable_iff h0]
    constructor
    · rintro ⟨c, hfresh, p, hp, hmatched, hsound, -⟩
      exact ⟨hfresh, p, hp, hmatched, hsound⟩
    · rintro ⟨hfresh, p, hp, hmatched, hsound⟩
      exact ⟨_, hfresh, p, hp, hmatched, hsound, rfl⟩
  exact ⟨(key .rpn).trans (key .pn).symm, key .rpn, key .pn⟩

/-- The tokens of `max(1)` are acceptable, for they compile. -/
theorem acceptable_of_compiles :
    Acceptable (standard.surroundings .empty) standard.limits.functionArgs
      [⟨.call, "max", 0, 0⟩, ⟨.openBracket, "(", 3, 1⟩, ⟨.number, "1", 4, 2⟩,
        ⟨.closeBracket, ")", 5, 3⟩] :=
  (compiles_iff_acceptable standard .empty _ none (by decide)).2.1.1 ⟨_, rfl⟩

end Engine

end Polish
