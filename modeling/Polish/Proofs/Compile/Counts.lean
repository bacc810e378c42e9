import Polish.Proofs.Compile.Operations

/-!
# Arguments are counted exactly

From the left, the arguments of a call are counted as they come, one more each time; from the right,
they are counted together when the name of the call is found, but again one after another.  So the
first count that is too high is one above the limit, in both directions.

* `Counted` — at no time of a scan does a call have more arguments than it may have;
* `Rejection` — how a compilation may fail;
* `Job.visit_counted`, `Job.run_counted` — scanning a token and a whole compilation keep to both,
  whatever the operators are at any time.

## How the proof goes

The direction matters only for where a count is known.  From the left, the owner of a group is known
from the beginning, and `Counted` holds it to its limit while it grows.  From the right no group has
an owner yet (`Counted.unowned`), and a group may have collected any number of arguments when the
name comes; `checkCounts` then goes through the counts one by one from the first, so here too the
one that fails is one above the limit.

`Keeps` of the module on computations does the bookkeeping: an operation that starts from a counted
state either ends in one or fails with a `Rejection`.  It is closed under `bind`, so each operation
is put together from its parts, and the scan of a token is a case for each kind of token.
-/

set_option autoImplicit false

namespace Polish.Compile

open Stepwise (Keeps)

/-- How a compilation may fail: there is something wrong with the tokens, or one of the calls has
one argument more than it may have. -/
inductive Rejection (job : Job) : Failure → Prop
  | compile (e : CompileError) : Rejection job (.compile e)
  | count {owner : Token} (hmem : owner ∈ job.tokens) (hk : owner.kind = .call) :
      Rejection job (.limit ⟨.functionArgs, job.limits.functionArgs,
        (job.limits.functionArgs.toNat : Int) + 1, some owner.pos⟩)

/-- The group is between the brackets of a call, which has not too many arguments so far, or it is
not known what it belongs to. -/
def Group.Within (job : Job) (group : Group) : Prop :=
  ∀ owner ∈ group.owner, owner ∈ job.tokens ∧ owner.kind = .call ∧
    group.args.length ≤ job.limits.functionArgs.toNat

/-- So far no call has too many arguments. -/
structure Counted (job : Job) (s : State) : Prop where
  within : ∀ group ∈ s.groups, group.Within job
  /-- From the right, it is not known what a group belongs to. -/
  unowned : job.mode = .pn → ∀ group ∈ s.groups, group.owner = none
  attached : ∀ entry ∈ s.attached, entry.2.length ≤ job.limits.functionArgs.toNat

variable {α : Type} {job : Job} {place : Place} {s : State} {group : Group} {around : List Group}
  {owner : Token} {count : Nat} {post : α → Prop}

/-- The surroundings may be any. -/
abbrev Anything : Surroundings → Prop := fun _ => True

theorem Group.within_of_unowned (h : group.owner = none) : group.Within job := by
  intro owner howner
  rw [h] at howner
  cases howner

namespace Counted

theorem of_frame {s' : State} (hs : Counted job s) (hgroups : s'.groups = s.groups)
    (hattached : s'.attached = s.attached) : Counted job s' :=
  ⟨hgroups ▸ hs.within, hgroups ▸ hs.unowned, hattached ▸ hs.attached⟩

theorem attach (hs : Counted job s) {args : List (List Token)}
    (hargs : args.length ≤ job.limits.functionArgs.toNat) :
    (s.attach place owner args).Keeps Anything (Rejection job) (Counted job) :=
  ⟨hs.within, hs.unowned, List.forall_mem_cons.2 ⟨hargs, hs.attached⟩⟩

end Counted

namespace Job

/-! ## Operations -/

theorem stop_counted {defect : Defect} {index : Nat} {token : Token} :
    (job.stop defect index token : Run α).Keeps Anything (Rejection job) post :=
  .compile ⟨defect, index, token, job.source⟩

theorem popOutranked_counted (operator : Operator) (stack output : List Token) :
    (job.popOutranked place operator stack output).Keeps Anything (Rejection job)
      fun _ => True := by
  induction stack generalizing output with
  | nil => trivial
  | cons top below ih =>
    rw [popOutranked]
    split
    · trivial
    · intro now _
      dsimp only
      split
      · trivial
      · split
        · exact ih _
        · trivial

theorem pushOperator_counted (hs : Counted job s) :
    (job.pushOperator s place).Keeps Anything (Rejection job) (Counted job) := by
  intro now _
  dsimp only
  split
  · exact stop_counted
  · exact (popOutranked_counted _ _ _).bind fun _ _ => hs.of_frame rfl rfl

theorem popUntil_counted {kind : Kind} {unmatched : Defect} (stack output : List Token) :
    (job.popUntil place kind unmatched stack output).Keeps Anything (Rejection job)
      fun _ => True := by
  induction stack generalizing output with
  | nil => exact stop_counted
  | cons top below ih =>
    rw [popUntil]
    split
    · trivial
    · exact ih _

/-- A group that is closed was one of the open ones. -/
theorem closeGroup_counted {kind : Kind} {unmatched : Defect} (hs : Counted job s) :
    (job.closeGroup s place kind unmatched).Keeps Anything (Rejection job)
      fun result => Counted job result.2 ∧ result.1.Within job := by
  refine (popUntil_counted _ _).bind fun ⟨output, operators⟩ _ => ?_
  cases operators with
  | nil => exact stop_counted
  | cons bracket below =>
    cases hgroups : s.groups with
    | nil => exact stop_counted
    | cons group around =>
      obtain ⟨hgroup, haround⟩ := List.forall_mem_cons.1 (hgroups ▸ hs.within)
      have hunowned (hm : job.mode = .pn) := List.forall_mem_cons.1 (hgroups ▸ hs.unowned hm)
      exact ⟨⟨haround, fun hm => (hunowned hm).2, hs.attached⟩, hgroup⟩

theorem checkNotEmpty_counted :
    (job.checkNotEmpty s group).Keeps Anything (Rejection job) fun _ => True := by
  rw [checkNotEmpty]
  split
  · exact stop_counted
  · trivial

/-- **The first count that is too high is one above the limit.** -/
theorem checkCount_counted (hmem : owner ∈ job.tokens) (hk : owner.kind = .call)
    (hcount : count ≤ job.limits.functionArgs.toNat) :
    (job.checkCount owner (count + 1)).Keeps Anything (Rejection job)
      fun _ => count + 1 ≤ job.limits.functionArgs.toNat := by
  rw [checkCount, Limits.exceeded?, Limits.bound]
  by_cases hlimit : job.limits.functionArgs < (count + 1 : Nat)
  · have hexact : count = job.limits.functionArgs.toNat := by omega
    rw [if_pos hlimit, hexact]
    exact .count hmem hk
  · rw [if_neg hlimit]
    show count + 1 ≤ job.limits.functionArgs.toNat
    omega

theorem checkCounts_counted (hmem : owner ∈ job.tokens) (hk : owner.kind = .call) :
    (job.checkCounts owner count).Keeps Anything (Rejection job)
      fun _ => count ≤ job.limits.functionArgs.toNat := by
  induction count with
  | zero => exact Nat.zero_le _
  | succ n ih =>
    rw [checkCounts_succ]
    exact ih.bind fun _ hn => checkCount_counted hmem hk hn

theorem closeCall_counted (hs : Counted job s) (hgroup : group.Within job)
    (howner : group.owner = some owner) :
    (job.closeCall s place owner group).Keeps Anything (Rejection job) (Counted job) := by
  obtain ⟨hmem, hk, hargs⟩ := hgroup owner howner
  have ht : Counted job (job.takeArgument s group).2 := hs.of_frame rfl rfl
  rw [closeCall]
  dsimp only
  split
  · split
    · refine ht.attach ?_
      exact Nat.zero_le _
    · exact stop_counted
  · refine (checkCount_counted hmem hk hargs).bind fun _ hcount => ht.attach ?_
    simpa using hcount

theorem endArgument_counted (hs : Counted job s) (hgroups : s.groups = group :: around)
    (howner : group.owner = some owner) :
    (job.endArgument s place group around owner).Keeps Anything (Rejection job) (Counted job) := by
  obtain ⟨hgroup, haround⟩ := List.forall_mem_cons.1 (hgroups ▸ hs.within)
  obtain ⟨hmem, hk, hargs⟩ := hgroup owner howner
  refine (popUntil_counted _ _).bind fun ⟨output, operators⟩ _ => ?_
  dsimp only
  split
  · exact stop_counted
  · refine (checkCount_counted hmem hk hargs).bind fun _ hcount => ?_
    refine ⟨List.forall_mem_cons.2 ⟨fun other hother => ?_, haround⟩, fun hm => ?_, hs.attached⟩
    · obtain rfl := Option.some.inj (howner.symm.trans hother)
      exact ⟨hmem, hk, hcount⟩
    · obtain ⟨hnone, hunowned⟩ := List.forall_mem_cons.1 (hgroups ▸ hs.unowned hm)
      exact List.forall_mem_cons.2 ⟨hnone, hunowned⟩

theorem endSegment_counted (hm : job.mode = .pn) (hs : Counted job s)
    (hgroups : s.groups = group :: around) :
    (job.endSegment s place group around).Keeps Anything (Rejection job) (Counted job) := by
  obtain ⟨-, haround⟩ := List.forall_mem_cons.1 (hgroups ▸ hs.within)
  obtain ⟨hgroup, hunowned⟩ := List.forall_mem_cons.1 (hgroups ▸ hs.unowned hm)
  refine (popUntil_counted _ _).bind fun ⟨output, operators⟩ _ => ?_
  dsimp only
  split
  · exact stop_counted
  · exact ⟨List.forall_mem_cons.2 ⟨Group.within_of_unowned hgroup, haround⟩,
      fun _ => List.forall_mem_cons.2 ⟨hgroup, hunowned⟩, hs.attached⟩

theorem collectArguments_counted (hs : Counted job s) (hmem : place.token ∈ job.tokens)
    (hk : place.token.kind = .call) :
    (job.collectArguments s place group).Keeps Anything (Rejection job) (Counted job) := by
  rw [collectArguments]
  dsimp only
  split
  · exact stop_counted
  · have ht : Counted job (job.takeArgument s group).2 := hs.of_frame rfl rfl
    exact (checkCounts_counted hmem hk).bind fun _ hcount => ht.attach hcount

theorem completeGroup_counted (hs : Counted job s) :
    (job.completeGroup s place).Keeps Anything (Rejection job) (Counted job) := by
  refine (closeGroup_counted hs).bind fun ⟨group, t⟩ ⟨ht, _⟩ => ?_
  dsimp only
  split
  · exact ht.of_frame rfl rfl
  · split
    · exact stop_counted
    · exact checkNotEmpty_counted.bind fun _ _ => ht.of_frame rfl rfl

/-! ## Single tokens -/

theorem visitForward_counted (hm : job.mode = .rpn) (hs : Counted job s)
    (hplace : place ∈ places job.tokens) :
    (job.visitForward s place).Keeps Anything (Rejection job) (Counted job) := by
  rw [visitForward]
  cases hk : place.token.kind with
  | number | constant => exact hs.of_frame rfl rfl
  | other => exact stop_counted
  | operator => exact pushOperator_counted hs
  | call =>
    have ht : ((s.putOut place.token).report place .insertValue place.token .nothing).Keeps Anything
        (Rejection job) (Counted job) := hs.of_frame rfl rfl
    refine ht.bind fun t ht => ?_
    split
    · exact ht
    · exact stop_counted
  | openBracket =>
    -- A new frame has no arguments yet, and its owner, if any, is the token before the bracket.
    refine ⟨List.forall_mem_cons.2 ⟨fun owner howner => ?_, hs.within⟩, fun hpn => ?_, hs.attached⟩
    · simp only [Option.mem_def, Option.ite_none_right_eq_some] at howner
      obtain ⟨hcall, hbefore⟩ := howner
      rw [hbefore] at hcall
      exact ⟨before_mem_of_mem_places hplace owner hbefore, by simpa [isKind] using hcall,
        Nat.zero_le _⟩
    · rw [hm] at hpn
      cases hpn
  | closeBracket =>
    refine (closeGroup_counted hs).bind fun closed hclosed => ?_
    obtain ⟨group, t⟩ := closed
    obtain ⟨ht, hgroup⟩ := hclosed
    dsimp only at ht hgroup ⊢
    cases howner : group.owner with
    | none => exact checkNotEmpty_counted.bind fun _ _ => ht
    | some owner => exact closeCall_counted ht hgroup howner
  | separator =>
    dsimp only
    cases hgroups : s.groups with
    | nil => exact stop_counted
    | cons group around =>
      dsimp only
      cases howner : group.owner with
      | none => exact stop_counted
      | some owner => exact endArgument_counted hs hgroups howner

theorem visitBackward_counted (hm : job.mode = .pn) (hs : Counted job s)
    (hplace : place ∈ places job.tokens) :
    (job.visitBackward s place).Keeps Anything (Rejection job) (Counted job) := by
  rw [visitBackward]
  cases hk : place.token.kind with
  | number | constant => exact hs.of_frame rfl rfl
  | other => exact stop_counted
  | operator => exact pushOperator_counted hs
  | call =>
    dsimp only
    cases s.pending with
    | none => exact stop_counted
    | some group =>
      exact (collectArguments_counted hs (mem_of_mem_places hplace) hk).bind fun _ ht =>
        ht.of_frame rfl rfl
  | closeBracket =>
    exact ⟨List.forall_mem_cons.2 ⟨Group.within_of_unowned rfl, hs.within⟩,
      fun _ => List.forall_mem_cons.2 ⟨rfl, hs.unowned hm⟩, hs.attached⟩
  | openBracket => exact completeGroup_counted hs
  | separator =>
    dsimp only
    cases hgroups : s.groups with
    | nil => exact stop_counted
    | cons group around => exact endSegment_counted hm hs hgroups

/-- **Scanning a token** leaves no call with too many arguments. -/
theorem visit_counted (hs : Counted job s) (hplace : place ∈ places job.tokens) :
    (job.visit s place).Keeps Anything (Rejection job) (Counted job) := by
  rw [visit]
  cases hm : job.mode with
  | rpn => exact visitForward_counted hm hs hplace
  | pn => exact visitBackward_counted hm hs hplace

/-! ## Whole compilations -/

theorem scan_counted {ps : List Place} (hps : ∀ place ∈ ps, place ∈ places job.tokens)
    (hs : Counted job s) : (job.scan ps s).Keeps Anything (Rejection job) (Counted job) := by
  induction ps generalizing s with
  | nil => exact hs
  | cons place rest ih =>
    obtain ⟨hplace, hrest⟩ := List.forall_mem_cons.1 hps
    exact (visit_counted hs hplace).bind fun _ ht => ih hrest ht

theorem flush_counted (stack output : List Token) :
    (job.flush stack output).Keeps Anything (Rejection job) fun _ => True := by
  induction stack generalizing output with
  | nil => trivial
  | cons top below ih => exact ih _

/-- **A compilation counts exactly**: what it attaches is not too many for any call, and where it
finds too many for one it has counted one above the limit. -/
theorem run_counted : job.run.Keeps Anything (Rejection job) fun c =>
    ∀ entry ∈ c.attached, entry.2.length ≤ job.limits.functionArgs.toNat := by
  have hfresh : job.checkFresh.Keeps Anything (Rejection job) fun _ => True := by
    intro now _
    dsimp only
    split
    · exact stop_counted
    · trivial
  have hclosed (s : State) : (job.checkClosed s).Keeps Anything (Rejection job) fun _ => True := by
    rw [checkClosed]
    split
    · trivial
    · exact stop_counted
  have hstart : Counted job .start :=
    ⟨List.forall_mem_nil _, fun _ => List.forall_mem_nil _, List.forall_mem_nil _⟩
  have hplaces : ∀ place ∈ job.mode.scanOrder (places job.tokens), place ∈ places job.tokens :=
    fun place hplace => (job.mode.scanOrder_perm _).mem_iff.1 hplace
  rw [run]
  simp only [Stepwise.bind_eq, Stepwise.surroundings, Stepwise.pure_eq]
  refine hfresh.bind fun _ _ => (scan_counted hplaces hstart).bind fun s hs => ?_
  refine (hclosed s).bind fun _ _ => (flush_counted _ _).bind fun output _ => ?_
  intro now _ entry hentry
  exact hs.attached entry (List.mem_reverse.1 hentry)

end Job

end Polish.Compile
