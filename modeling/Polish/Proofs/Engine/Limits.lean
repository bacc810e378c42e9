import Polish.Engine
import Polish.Proofs.Grammar.Walk
import Polish.Proofs.Stepwise

/-!
# Limits only ever reject

What an engine makes of a text under some limits, it makes of it under higher ones as well.  Two
results are `SameUnlessLimited` if they are equal or the first one is a failure of a limit.  All
that the stages do keeps to that:

* a scan counts its matches without progress, and this count is compared with a limit and with
  nothing else (`Scan.turn_limit`);
* of the operations of the compiler, only those that count arguments look at a limit
  (`Compile.Job.checkCount_raised`);
* the evaluator goes down as many levels of calls as it is allowed to, and with more levels it does
  the same on the way (`Evaluate.Job.evaluate_raised`).

`Engine.evaluate_limits` puts them together: higher limits give the same value or the same failure.

## How the proof goes

`Raised` relates a computation to the same computation under higher limits: it ends in the same way,
or the first one comes to a limit.  It goes through `bind`, `look` and `emit`, and an operation that
asks no limit is the same computation under both (`_under`), so only a handful of operations need a
proof of their own, those that count and those that contain one of them.

The levels of calls are a limit of another kind, since they bound the recursion itself.  With more
of them the evaluation is another term, and the induction is on the levels of the first one: at each
call either it has a level left, then so has the other, or it stops at the limit (`Deeper`).  A scan
of a text has the same difficulty with its rounds, which depend on the limit too.  There, more
rounds do not change the answer of a scan that has come to an end.
-/

set_option autoImplicit false

namespace Polish

/-! ## Higher limits -/

/-- None of the limits is higher than its counterpart. -/
structure Limits.AtMost (limits limits' : Limits) : Prop where
  expressionLength : limits.expressionLength ≤ limits'.expressionLength
  sameIndex : limits.sameIndex ≤ limits'.sameIndex
  functionArgs : limits.functionArgs ≤ limits'.functionArgs
  callDepth : limits.callDepth ≤ limits'.callDepth

theorem Limits.AtMost.bound_le {limits limits' : Limits} (h : limits.AtMost limits')
    (which : Which) : limits.bound which ≤ limits'.bound which := by
  cases which with
  | expressionLength => exact h.expressionLength
  | functionArgs => exact h.functionArgs
  | callDepth => exact h.callDepth

/-- A count that is within a limit is within a higher one. -/
theorem Limits.AtMost.exceeded?_eq_none {limits limits' : Limits} (h : limits.AtMost limits')
    {which : Which} {count : Int} {position : Option Int}
    (hcount : limits.exceeded? which count position = none) :
    limits'.exceeded? which count position = none :=
  exceeded?_eq_none_iff.2 (Int.le_trans (exceeded?_eq_none_iff.1 hcount) (h.bound_le which))

/-- The failure is that a limit was exceeded or a scan stood still for too long. -/
def Failure.OfLimit : Failure → Prop
  | .limit _ | .grammar (.stalled ..) => True
  | _ => False

/-! ## Results under higher limits -/

section

variable {σ α β : Type}

/-- The second result is the first one, unless that is a failure of a limit. -/
def SameUnlessLimited (result result' : Except Failure α) : Prop :=
  (∃ failure, result = .error failure ∧ failure.OfLimit) ∨ result' = result

theorem SameUnlessLimited.refl (result : Except Failure α) : SameUnlessLimited result result :=
  .inr rfl

theorem SameUnlessLimited.bind {c c' : Except Failure α} {f f' : α → Except Failure β}
    (hc : SameUnlessLimited c c') (hf : ∀ a, SameUnlessLimited (f a) (f' a)) :
    SameUnlessLimited (c.bind f) (c'.bind f') := by
  rcases hc with ⟨failure, rfl, hlimit⟩ | rfl
  · exact .inl ⟨failure, rfl, hlimit⟩
  · cases c' with
    | ok a => exact hf a
    | error failure => exact .refl _

/-- The second computation ends as the first one does, unless that comes to a limit. -/
def Raised (c c' : Stepwise Surroundings σ Failure α) : Prop :=
  ∀ now, SameUnlessLimited (c.eager now) (c'.eager now)

theorem Raised.refl (c : Stepwise Surroundings σ Failure α) : Raised c c := fun _ => .refl _

theorem Raised.of_eq {c c' : Stepwise Surroundings σ Failure α} (h : c' = c) : Raised c c' :=
  h ▸ .refl c

theorem Raised.of_limit (e : LimitExceeded) (c' : Stepwise Surroundings σ Failure α) :
    Raised (.fail (.limit e)) c' :=
  fun _ => .inl ⟨.limit e, rfl, trivial⟩

theorem Raised.bind {c c' : Stepwise Surroundings σ Failure α}
    {f f' : α → Stepwise Surroundings σ Failure β} (hc : Raised c c')
    (hf : ∀ a, Raised (f a) (f' a)) : Raised (c.bind f) (c'.bind f') := by
  intro now
  rw [Stepwise.eager_bind, Stepwise.eager_bind]
  exact (hc now).bind fun a => hf a now

theorem Raised.look {next next' : Surroundings → Stepwise Surroundings σ Failure α}
    (h : ∀ now, Raised (next now) (next' now)) :
    Raised (Stepwise.look next) (Stepwise.look next') :=
  fun now => h now now

theorem Raised.emit {next next' : Stepwise Surroundings σ Failure α} (h : Raised next next')
    (step : σ) : Raised (Stepwise.emit step next) (Stepwise.emit step next') := h

end

/-! ## Reading -/

/-- A round under another limit differs only where it stops for the first one. -/
theorem Scan.turn_limit {task : ScanTask} {limit : Int} (hle : task.limit ≤ limit) (s : Scan) :
    (∃ rule, s.turn task = .inl (.error (.grammar (.stalled rule task.limit s.index)))) ∨
      s.turn { task with limit } = s.turn task := by
  by_cases hi : s.index < task.source.toList.length
  · cases hmatch : firstMatch s.reachable task.source.toList s.index.toNat with
    | none =>
      refine .inr ?_
      rw [turn_stuck hi hmatch]
      exact turn_stuck hi hmatch
    | some found =>
      obtain ⟨rule, width⟩ := found
      have hturn := turn_match hi hmatch
      have hturn' := @turn_match { task with limit } s rule width hi hmatch
      by_cases hstop : (s.next task rule width).index = s.index ∧
          task.limit < (s.next task rule width).stalled
      · exact .inl ⟨rule.name, by rw [hturn, if_pos hstop]⟩
      · refine .inr ?_
        have hstop' : ¬ ((s.next { task with limit } rule width).index = s.index ∧
            limit < (s.next { task with limit } rule width).stalled) :=
          fun h => hstop ⟨h.1, Int.lt_of_le_of_lt hle h.2⟩
        rw [hturn, hturn', if_neg hstop, if_neg hstop']
        rfl
  · refine .inr ?_
    rw [turn_end hi]
    exact turn_end hi

namespace Grammar

variable {g : Grammar} {source : String} {limit limit' : Int} {keepIgnored : Bool}

theorem scan_limit {task : ScanTask} (hle : task.limit ≤ limit) {n : Nat} {s : Scan}
    {result : Except ScanError (List Token)} (h : scan task n s = some result) :
    (∃ rule index, result = .error (.grammar (.stalled rule task.limit index))) ∨
      scan { task with limit } n s = some result := by
  induction n generalizing s with
  | zero => cases h
  | succ n ih =>
    rw [scan] at h
    rcases s.turn_limit hle with ⟨rule, hturn⟩ | hturn
    · rw [hturn] at h
      exact .inl ⟨rule, s.index, (Option.some.inj h).symm⟩
    · rw [scan, hturn]
      cases hnext : s.turn task with
      | inl ended =>
        rw [hnext] at h
        exact .inr h
      | inr s' =>
        rw [hnext] at h
        exact ih h

/-- More matches without progress need more rounds. -/
theorem rounds_le (hle : limit ≤ limit') :
    rounds ⟨g, source, limit, keepIgnored⟩ ≤ rounds ⟨g, source, limit', keepIgnored⟩ :=
  Nat.add_le_add_right (Nat.mul_le_mul_left _ (by simp only; omega)) _

/-- What is read under a limit is read under a higher one. -/
theorem parse_limit (hle : limit ≤ limit') :
    (∃ rule index, g.parse source limit keepIgnored
        = .error (.grammar (.stalled rule limit index))) ∨
      g.parse source limit keepIgnored = .error .endless ∨
      g.parse source limit' keepIgnored = g.parse source limit keepIgnored := by
  cases hcheck : g.check with
  | error defect =>
    refine .inr (.inr ?_)
    rw [parse, parse, hcheck]
    rfl
  | ok u =>
    cases hentry : g.entryRules with
    | error defect =>
      refine .inr (.inr ?_)
      rw [parse, parse, hcheck, hentry]
      rfl
    | ok start =>
      rw [parse_eq hcheck hentry, parse_eq hcheck hentry]
      cases hscan : scan ⟨g, source, limit, keepIgnored⟩
          (rounds ⟨g, source, limit, keepIgnored⟩) ⟨0, 0, start, none, []⟩ with
      | none => exact .inr (.inl rfl)
      | some result =>
        rcases scan_limit hle hscan with ⟨rule, index, rfl⟩ | hscan'
        · exact .inl ⟨rule, index, rfl⟩
        · exact .inr (.inr (by rw [scan_mono hscan' (rounds_le hle)]))

end Grammar

/-! ## Compiling -/

namespace Compile.Job

variable {job : Job} {limits : Limits} {s : State} {place : Place} {group : Group}

/-- The compilation under other limits. -/
def under (job : Job) (limits : Limits) : Job := { job with limits }

theorem popOutranked_under (operator : Operator) (stack output : List Token) :
    (job.under limits).popOutranked place operator stack output
      = job.popOutranked place operator stack output := by
  induction stack generalizing output with
  | nil => rfl
  | cons top below ih =>
    rw [popOutranked, popOutranked]
    simp only [ih]
    rfl

theorem pushOperator_under :
    (job.under limits).pushOperator s place = job.pushOperator s place := by
  rw [pushOperator, pushOperator]
  simp only [popOutranked_under]
  rfl

theorem popUntil_under (kind : Kind) (unmatched : Defect) (stack output : List Token) :
    (job.under limits).popUntil place kind unmatched stack output
      = job.popUntil place kind unmatched stack output := by
  induction stack generalizing output with
  | nil => rfl
  | cons top below ih => rw [popUntil, popUntil, ih]

theorem closeGroup_under (kind : Kind) (unmatched : Defect) :
    (job.under limits).closeGroup s place kind unmatched
      = job.closeGroup s place kind unmatched := by
  rw [closeGroup, closeGroup, popUntil_under]
  rfl

theorem endSegment_under (around : List Group) :
    (job.under limits).endSegment s place group around = job.endSegment s place group around := by
  rw [endSegment, endSegment, popUntil_under]
  rfl

theorem completeGroup_under :
    (job.under limits).completeGroup s place = job.completeGroup s place := by
  rw [completeGroup, completeGroup, closeGroup_under]
  rfl

theorem flush_under (stack output : List Token) :
    (job.under limits).flush stack output = job.flush stack output := by
  induction stack generalizing output with
  | nil => rfl
  | cons top below ih => rw [flush, flush, ih]; rfl

/-! ### Where arguments are counted -/

theorem checkCount_raised (h : job.limits.AtMost limits) (owner : Token) (count : Nat) :
    Raised (job.checkCount owner count) ((job.under limits).checkCount owner count) := by
  rw [checkCount]
  cases hcount : job.limits.exceeded? .functionArgs count (some owner.pos) with
  | some e => exact .of_limit e _
  | none =>
    refine .of_eq ?_
    rw [checkCount, under, h.exceeded?_eq_none hcount]

theorem checkCounts_raised (h : job.limits.AtMost limits) (owner : Token) (count : Nat) :
    Raised (job.checkCounts owner count) ((job.under limits).checkCounts owner count) := by
  have hfold (indices : List Nat) (start start' : Run Unit) (hstart : Raised start start') :
      Raised (indices.foldl (fun run i => run.bind fun _ => job.checkCount owner (i + 1)) start)
        (indices.foldl
          (fun run i => run.bind fun _ => (job.under limits).checkCount owner (i + 1)) start') := by
    induction indices generalizing start start' with
    | nil => exact hstart
    | cons i indices ih => exact ih _ _ (hstart.bind fun _ => checkCount_raised h owner _)
  exact hfold _ _ _ (.refl _)

theorem closeCall_raised (h : job.limits.AtMost limits) (owner : Token) :
    Raised (job.closeCall s place owner group)
      ((job.under limits).closeCall s place owner group) := by
  rw [closeCall, closeCall, show (job.under limits).takeArgument s group
    = job.takeArgument s group from rfl]
  obtain ⟨argument, s⟩ := job.takeArgument s group
  dsimp only
  split
  · exact .refl _
  · exact (checkCount_raised h owner _).bind fun _ => .refl _

theorem endArgument_raised (h : job.limits.AtMost limits) (around : List Group) (owner : Token) :
    Raised (job.endArgument s place group around owner)
      ((job.under limits).endArgument s place group around owner) := by
  rw [endArgument, endArgument, popUntil_under]
  refine (Raised.refl _).bind fun ⟨output, operators⟩ => ?_
  dsimp only
  rw [show (job.under limits).takeArgument { s with output, operators } group
    = job.takeArgument { s with output, operators } group from rfl]
  obtain ⟨argument, s⟩ := job.takeArgument { s with output, operators } group
  dsimp only
  split
  · exact .refl _
  · exact (checkCount_raised h owner _).bind fun _ => .refl _

theorem collectArguments_raised (h : job.limits.AtMost limits) :
    Raised (job.collectArguments s place group)
      ((job.under limits).collectArguments s place group) := by
  rw [collectArguments, collectArguments, show (job.under limits).takeArgument s group
    = job.takeArgument s group from rfl]
  obtain ⟨argument, s⟩ := job.takeArgument s group
  dsimp only
  split
  · exact .refl _
  · exact (checkCounts_raised h place.token _).bind fun _ => .refl _

/-! ### Whole scans -/

theorem visitForward_raised (h : job.limits.AtMost limits) :
    Raised (job.visitForward s place) ((job.under limits).visitForward s place) := by
  rw [visitForward, visitForward]
  cases place.token.kind with
  | number | constant | call | openBracket | other => exact .refl _
  | operator => exact .of_eq pushOperator_under
  | closeBracket =>
    simp only [closeGroup_under]
    refine (Raised.refl _).bind fun ⟨group, s⟩ => ?_
    dsimp only
    cases group.owner with
    | none => exact .refl _
    | some owner => exact closeCall_raised h owner
  | separator =>
    dsimp only
    cases s.groups with
    | nil => exact .refl _
    | cons group around =>
      dsimp only
      cases group.owner with
      | none => exact .refl _
      | some owner => exact endArgument_raised h around owner

theorem visitBackward_raised (h : job.limits.AtMost limits) :
    Raised (job.visitBackward s place) ((job.under limits).visitBackward s place) := by
  rw [visitBackward, visitBackward]
  cases place.token.kind with
  | number | constant | closeBracket | other => exact .refl _
  | operator => exact .of_eq pushOperator_under
  | openBracket => exact .of_eq completeGroup_under
  | call =>
    dsimp only
    cases s.pending with
    | none => exact .refl _
    | some group => exact (collectArguments_raised h).bind fun _ => .refl _
  | separator =>
    dsimp only
    cases s.groups with
    | nil => exact .refl _
    | cons group around => exact .of_eq (endSegment_under around)

theorem scan_raised (h : job.limits.AtMost limits) (ps : List Place) :
    Raised (job.scan ps s) ((job.under limits).scan ps s) := by
  induction ps generalizing s with
  | nil => exact .refl _
  | cons place rest ih =>
    rw [scan, scan]
    refine Raised.bind ?_ fun s => ih
    rw [visit, visit, show (job.under limits).mode = job.mode from rfl]
    cases job.mode with
    | rpn => exact visitForward_raised h
    | pn => exact visitBackward_raised h

/-- **Compiling under higher limits.** -/
theorem run_raised (h : job.limits.AtMost limits) : Raised job.run (job.under limits).run := by
  rw [run, run]
  simp only [flush_under]
  exact (Raised.refl _).bind fun _ => (scan_raised h _).bind fun s => .refl _

end Compile.Job

/-! ## Evaluating -/

namespace Evaluate.Job

variable {job : Job} {limits : Limits} {frame : Frame}

/-- The evaluation under other limits. -/
def under (job : Job) (limits : Limits) : Job := { job with limits }

/-- Where there is a way to evaluate arguments under some limits, there is one under higher
limits. -/
inductive Deeper : Option Argument → Option Argument → Prop
  | none (deeper' : Option Argument) : Deeper .none deeper'
  | some {argument argument' : Argument}
      (h : ∀ token list, Raised (argument token list) (argument' token list)) :
      Deeper (.some argument) (.some argument')

theorem argumentValues_raised {argument argument' : List Token → Run Float}
    (h : ∀ list, Raised (argument list) (argument' list)) (lists : List (List Token)) :
    Raised (argumentValues argument lists) (argumentValues argument' lists) := by
  induction lists with
  | nil => exact .refl _
  | cons list lists ih =>
    exact (h list).bind fun value => ih.bind fun values => .refl _

theorem call_raised {deeper deeper' : Option Argument} (h : Deeper deeper deeper') (token : Token)
    (index : Nat) (stack : List Float) :
    Raised (job.call frame deeper token index stack)
      ((job.under limits).call frame deeper' token index stack) := by
  rw [call, call]
  refine .look fun now => ?_
  cases now.registries.functions.find? token.text with
  | none => exact .refl _
  | some function =>
    dsimp only
    cases now.sheet.args? token.handle with
    | none => exact .refl _
    | some args =>
      dsimp only
      rcases h with deeper' | h
      · exact .of_limit _ _
      · exact (argumentValues_raised (h token) args).bind fun values => .refl _

theorem tokens_raised {deeper deeper' : Option Argument} (h : Deeper deeper deeper')
    (list : List (Token × Nat)) (stack : List Float) :
    Raised (job.tokens frame deeper list stack)
      ((job.under limits).tokens frame deeper' list stack) := by
  induction list generalizing stack with
  | nil => exact .refl _
  | cons entry rest ih =>
    obtain ⟨token, index⟩ := entry
    rw [tokens, tokens]
    cases token.kind with
    | call => exact (call_raised h token index stack).bind ih
    | number | constant | operator | openBracket | closeBracket | separator | other =>
      exact (Raised.refl _).bind ih

theorem listing_raised {deeper deeper' : Option Argument} (h : Deeper deeper deeper')
    (list : List Token) :
    Raised (job.listing frame deeper list) ((job.under limits).listing frame deeper' list) :=
  (tokens_raised h _ _).bind fun _ => .refl _

/-- **With more levels left, an evaluation does the same.** -/
theorem evaluate_raised {levels levels' : Nat} (hle : levels ≤ levels') (list : List Token) :
    Raised (job.evaluate levels frame list) ((job.under limits).evaluate levels' frame list) := by
  induction levels generalizing levels' frame list with
  | zero =>
    cases levels' with
    | zero => exact listing_raised (.none _) list
    | succ levels' => exact listing_raised (.none _) list
  | succ levels ih =>
    obtain ⟨more, rfl⟩ : ∃ more, levels' = more + 1 := ⟨levels' - 1, by omega⟩
    exact listing_raised (.some fun caller list => (ih (by omega) list).emit _) list

theorem run_raised (h : job.limits.AtMost limits) (list : List Token) :
    Raised (job.run list) ((job.under limits).run list) := by
  have hlevels : job.limits.callDepth.toNat ≤ limits.callDepth.toNat := by
    have := h.callDepth
    omega
  exact (evaluate_raised hlevels list).bind fun value => .refl _

end Evaluate.Job

/-! ## Engines -/

namespace Engine

variable {e : Engine} {limits : Limits} {text : String}

/-- The engine under other limits. -/
def under (e : Engine) (limits : Limits) : Engine := { e with limits }

theorem tokenize_limits (h : e.limits.AtMost limits)
    (hends : e.grammar.Hookless ∨ e.tokenize text ≠ .error .endless) :
    SameUnlessLimited (e.tokenize text) ((e.under limits).tokenize text) := by
  have hends' : e.grammar.parse text e.limits.sameIndex false = .error .endless →
      e.limits.exceeded? .expressionLength text.length none = none → False := by
    intro hparse hlength
    rcases hends with hg | hne
    · exact hg.parse_ne_endless hparse
    · refine hne ?_
      rw [tokenize, hlength, hparse]
      rfl
  rw [tokenize, tokenize]
  cases hlength : e.limits.exceeded? .expressionLength text.length none with
  | some limit => exact .inl ⟨_, rfl, trivial⟩
  | none =>
    rw [show (e.under limits).limits = limits from rfl, h.exceeded?_eq_none hlength]
    rcases @Grammar.parse_limit e.grammar text _ _ false h.sameIndex with
      ⟨rule, index, hparse⟩ | hparse | hparse
    · refine .inl ⟨.grammar (.stalled rule e.limits.sameIndex index), ?_, trivial⟩
      dsimp only
      rw [hparse]
      rfl
    · exact (hends' hparse hlength).elim
    · refine .inr ?_
      dsimp only
      rw [show (e.under limits).grammar = e.grammar from rfl, hparse]

theorem compile_limits (h : e.limits.AtMost limits) (sheet : Sheet) (tokens : List Token)
    (mode : String) (source : Option String) :
    SameUnlessLimited (e.compile sheet tokens mode source)
      ((e.under limits).compile sheet tokens mode source) := by
  rw [compile, compile, compilation, compilation]
  cases modeNamed mode with
  | error failure => exact .refl _
  | ok mode => exact Compile.Job.run_raised h _

theorem evaluateListing_limits (h : e.limits.AtMost limits) (draws : Evaluate.Draws)
    (sheet : Sheet) (listing : List Token) (mode : String) (source : Option String) :
    SameUnlessLimited (e.evaluateListing draws sheet listing mode source)
      ((e.under limits).evaluateListing draws sheet listing mode source) := by
  rw [evaluateListing, evaluateListing, evaluation, evaluation]
  cases modeNamed mode with
  | error failure => exact .refl _
  | ok mode =>
    dsimp only
    rw [Stepwise.eager_attempt, Stepwise.eager_attempt]
    exact Evaluate.Job.run_raised h listing _

/-- **Limits only ever reject.**  If the evaluation of a text does not come to a limit, then it has
the same value or fails in the same way under any limits that are nowhere lower.  (Hooks may keep
a scan from ending; a scan that is given up for that has no outcome to speak of.) -/
theorem evaluate_limits (e : Engine) (limits : Limits) (h : e.limits.AtMost limits)
    (draws : Evaluate.Draws) (text mode : String)
    (hlimit : ∀ x, e.evaluate draws text mode ≠ .error (.limit x))
    (hstalled : ∀ rule limit index,
      e.evaluate draws text mode ≠ .error (.grammar (.stalled rule limit index)))
    (hends : e.grammar.Hookless ∨ e.evaluate draws text mode ≠ .error .endless) :
    (e.under limits).evaluate draws text mode = e.evaluate draws text mode := by
  have hread : e.grammar.Hookless ∨ e.tokenize text ≠ .error .endless := by
    refine hends.imp_right fun hne htokens => hne ?_
    rw [evaluate, htokens]
    rfl
  have hsame : SameUnlessLimited (e.evaluate draws text mode)
      ((e.under limits).evaluate draws text mode) := by
    rw [evaluate, evaluate]
    refine (tokenize_limits h hread).bind fun tokens => ?_
    refine (compile_limits h _ tokens mode _).bind fun compiled => ?_
    rw [show (e.under limits).registries = e.registries from rfl]
    cases e.registries.firstUnknown? tokens with
    | some token => exact .refl _
    | none => exact evaluateListing_limits h draws _ _ mode _
  -- A failure over a limit is excluded by assumption, whichever of the limits it is.
  rcases hsame with ⟨failure, hfailure, hof⟩ | hsame
  · exfalso
    unfold Failure.OfLimit at hof
    split at hof
    · exact hlimit _ hfailure
    · exact hstalled _ _ _ hfailure
    · exact hof
  · exact hsame

/-- `max(2,3)*4` has ten characters, one empty match at most in a row, calls with two arguments and
no call inside another, so these limits are the least that it needs. -/
theorem evaluate_limits_product :
    (standard.under ⟨10, 1, 2, 1⟩).evaluate (fun _ _ => 0) "max(2,3)*4" "rpn" = .ok 12 ∧
      standard.evaluate (fun _ _ => 0) "max(2,3)*4" "rpn" = .ok 12 := by
  have hvalue :
      (standard.under ⟨10, 1, 2, 1⟩).evaluate (fun _ _ => 0) "max(2,3)*4" "rpn" = .ok 12 :=
    toOption_eq_some.1 (by decide +kernel)
  have hsame := evaluate_limits (standard.under ⟨10, 1, 2, 1⟩) .standard
    ⟨by decide, by decide, by decide, by decide⟩ _ "max(2,3)*4" "rpn"
    (fun x h => by rw [hvalue] at h; cases h) (fun _ _ _ h => by rw [hvalue] at h; cases h)
    (.inr fun h => by rw [hvalue] at h; cases h)
  exact ⟨hvalue, hsame.trans hvalue⟩

end Engine

end Polish
