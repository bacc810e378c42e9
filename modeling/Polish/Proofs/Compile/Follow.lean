import Polish.Proofs.Compile.Acceptance
import Polish.Proofs.Compile.Replay
import Polish.Proofs.Compile.Steady

/-!
# The steps of a compilation can be replayed

All that a replay knows can be read off the state of a scan, except for the bracket that was dropped
last: `State.replay` is given it.  From the left, it is used up at once, since a call is completed
when its bracket is closed.  From the right, the bracket waits for the name of its call, and
`Awaits` says that it is the one that the state has put by.

* `Follows` says of the part of a compilation that scans one token that its steps are moves from one
  replay to another.  It is closed under `bind`, and there is one lemma for each operation.
* `Job.run_replays` — a whole compilation is replayed to its result; one that fails is replayed as
  far as it goes.
* `Job.run_last` — the last step of a compilation shows its result.

## How the proof goes

`Follows R c r` relates a computation to a replay that stands at `r`.  For an operation the proof
runs through its steps, one constructor of `Replay.after` each, and shows that the state after the
step, read as a replay, is what the replay makes of the step.  So the lemmas of the first part
(`after_putOut` and the like) say for each change of a state what it is in a replay, and the lemmas
about operations only have to find the right one.

What makes `separate` necessary is that a separator ends an argument without any step.  A replay
does that by itself when it is told that the scan has come to the next token, so the statement about
a whole scan alternates between moments of the scan and steps (`Replayed.bind`).
-/

set_option autoImplicit false

namespace Polish

namespace Compile

/-! ## Computations that can be followed -/

section

variable {α β : Type} {now : Surroundings} {m : Mode} {moment : Moment} {r r' : Replay}
  {mid post : α → Replay → Prop}

/-- The steps of a computation are moves from one replay to another, and in the end the answer and
the replay belong together. -/
def Follows (now : Surroundings) (m : Mode) (moment : Moment) (r : Replay) (c : Run α)
    (post : α → Replay → Prop) : Prop :=
  ∃ r', Moves m moment r (c.trace now).1 r' ∧ ∀ a, (c.trace now).2 = .ok a → post a r'

namespace Follows

theorem answer {a : α} (h : post a r) : Follows now m moment r (.answer a) post :=
  ⟨r, .nil r, fun _ hb => Except.ok.inj hb ▸ h⟩

theorem fail (failure : Failure) : Follows now m moment r (.fail failure) post :=
  ⟨r, .nil r, nofun⟩

theorem look {next : Surroundings → Run α} (h : Follows now m moment r (next now) post) :
    Follows now m moment r (.look next) post := h

theorem emit {step : Step} {next : Run α} (hindex : step.index = moment.index)
    (hscanned : step.scanned = moment.scanned) (hafter : r.after m step.move step.token = some r')
    (hshown : r'.ShownBy m step) (h : Follows now m moment r' next post) :
    Follows now m moment r (.emit step next) post := by
  obtain ⟨r'', hmoves, hpost⟩ := h
  exact ⟨r'', .cons hindex hscanned hafter hshown hmoves, hpost⟩

theorem bind {c : Run α} {f : α → Run β} {post : β → Replay → Prop}
    (hc : Follows now m moment r c mid)
    (hf : ∀ a r', mid a r' → Follows now m moment r' (f a) post) :
    Follows now m moment r (c.bind f) post := by
  obtain ⟨r', hmoves, hmid⟩ := hc
  cases hresult : (c.trace now).2 with
  | error failure =>
    rw [Follows, Stepwise.trace_bind_error hresult]
    exact ⟨r', hmoves, nofun⟩
  | ok a =>
    obtain ⟨r'', hmoves', hpost⟩ := hf a r' (hmid a hresult)
    rw [Follows, Stepwise.trace_bind_ok hresult]
    exact ⟨r'', hmoves.append hmoves', hpost⟩

theorem mono {c : Run α} (h : Follows now m moment r c mid) (hpost : ∀ a r', mid a r' → post a r') :
    Follows now m moment r c post := by
  obtain ⟨r', hmoves, hmid⟩ := h
  exact ⟨r', hmoves, fun a ha => hpost a r' (hmid a ha)⟩

end Follows

end

/-! ## The state of a scan as a replay -/

/-- An open group as an open bracket. -/
def Group.opened (m : Mode) (group : Group) : Opened := ⟨group.start, m.inOrder group.args⟩

/-- The state of a scan with the bracket that was dropped last. -/
def State.replay (m : Mode) (s : State) (closed : Option Opened) : Replay :=
  ⟨m.inOrder s.output, s.operators.reverse, s.groups.map (Group.opened m), closed,
    s.attached.reverse⟩

/-- From the right, a group that waits for the name of its call is the bracket that was dropped
last. -/
def Awaits (m : Mode) (s : State) (closed : Option Opened) : Prop :=
  m = .pn → ∀ group ∈ s.pending, closed = some (group.opened m)

section

variable {m : Mode} {s : State} {closed : Option Opened} {token : Token}

theorem after_putOut : (s.replay m closed).after m .insertValue token
    = some ((s.putOut token).replay m closed) := by
  simp [Replay.after, State.replay, State.putOut, Mode.inOrder_cons]

theorem after_push (hk : token.kind = .operator) :
    (s.replay m closed).after m .pushOperator token = some ((s.push token).replay m closed) := by
  simp [Replay.after, State.replay, State.push, hk]

theorem after_open (hk : token.kind ≠ .operator) (index : Nat) (owner : Option Token) :
    (s.replay m closed).after m .pushOperator token
      = some
        ((s.inside token ⟨token, index, s.output.length, owner, [], none⟩).replay m closed) := by
  cases m <;> simp [Replay.after, State.replay, State.inside, Group.opened, hk, Mode.inOrder]

theorem after_moveOperator (output below : List Token) :
    ({ s with output, operators := token :: below }.replay m closed).after m .moveOperator token
      = some ({ s with output := token :: output, operators := below }.replay m closed) := by
  simp [Replay.after, State.replay, Mode.inOrder_cons]

theorem after_dropBracket (output below : List Token) (group : Group) (around : List Group) :
    ({ s with output, operators := token :: below, groups := group :: around }.replay m
        closed).after m .dropBracket token
      = some ({ s with output, operators := below, groups := around }.replay m
          (some (group.opened m))) := by
  simp [Replay.after, State.replay]

variable (job : Job) (group : Group)

/-- What is attached to a call is the finished arguments with the remaining one, if there is one. -/
theorem after_attachArguments {args : List (List Token)}
    (hargs : args = if (job.takeArgument s group).1.isEmpty then job.mode.inOrder group.args
      else job.mode.inOrder ((job.takeArgument s group).1 :: group.args)) :
    (s.replay job.mode (some (group.opened job.mode))).after job.mode .attachArguments token
      = some ({ (job.takeArgument s group).2 with
          attached := (token.handle, args) :: s.attached }.replay job.mode none) := by
  rw [hargs]
  simp only [Replay.after, State.replay, Job.takeArgument, Group.opened, Option.map_some,
    Mode.inOrder_take, Mode.inOrder_drop, Mode.inOrder_cons, List.reverse_cons]
  rfl

/-- The argument before a separator becomes one of the innermost group. -/
theorem separate_takeArgument {around : List Group} {group' : Group}
    (hgroups : s.groups = group :: around)
    (hne : ¬ (job.takeArgument s group).1.isEmpty = true) (hstart : group'.start = group.start)
    (hargs : group'.args = (job.takeArgument s group).1 :: group.args) :
    (s.replay job.mode closed).separate job.mode
      = some ({ (job.takeArgument s group).2 with groups := group' :: around }.replay job.mode
          closed) := by
  simp only [Job.takeArgument, Mode.inOrder_take] at hne hargs
  simp only [Replay.separate, State.replay, hgroups, List.map_cons, Group.opened, hstart, hargs,
    Job.takeArgument, Mode.inOrder_drop, Mode.inOrder_cons]
  rw [if_neg hne]

end

/-! ## Operations that can be followed -/

namespace Job

/-! ### Operators -/

section

variable {now : Surroundings} {s : State} {place : Place} {closed : Option Opened}

theorem follows_report {m : Mode} {move : Move} {token : Token} {remark : Remark} {r : Replay}
    (hafter : r.after m move token = some (s.replay m closed)) :
    Follows now m place.moment r (s.report place move token remark)
      fun s' r' => s' = s ∧ r' = s.replay m closed :=
  .emit rfl rfl hafter ⟨rfl, rfl⟩ (.answer ⟨rfl, rfl⟩)

end

variable (job : Job) {now : Surroundings} {s : State} {place : Place} {closed : Option Opened}
  {group : Group}

theorem follows_popOutranked (operator : Operator) (stack output : List Token) :
    Follows now job.mode place.moment ({ s with output, operators := stack }.replay job.mode closed)
      (job.popOutranked place operator stack output) fun result r' =>
        r' = { s with output := result.1, operators := result.2 }.replay job.mode closed := by
  induction stack generalizing output with
  | nil => exact .answer rfl
  | cons top below ih =>
    rw [popOutranked]
    split
    · exact .answer rfl
    · refine .look ?_
      split
      · exact .answer rfl
      · split
        · exact .emit rfl rfl (after_moveOperator output below) ⟨rfl, rfl⟩ (ih _)
        · exact .answer rfl

theorem follows_pushOperator (hk : place.token.kind = .operator) :
    Follows now job.mode place.moment (s.replay job.mode closed) (job.pushOperator s place)
      fun s' r' => r' = s'.replay job.mode closed ∧ s'.pending = s.pending := by
  refine .look ?_
  dsimp only
  split
  · exact .fail _
  · next operator _ =>
    refine Follows.bind (follows_report rfl) ?_
    rintro _ _ ⟨rfl, rfl⟩
    refine Follows.bind (job.follows_popOutranked operator _ _) ?_
    rintro ⟨output, stack⟩ _ rfl
    refine Follows.mono (follows_report (after_push hk)) ?_
    rintro _ _ ⟨rfl, rfl⟩
    exact ⟨rfl, rfl⟩

/-! ### Brackets -/

theorem follows_popUntil (kind : Kind) (unmatched : Defect) (stack output : List Token) :
    Follows now job.mode place.moment ({ s with output, operators := stack }.replay job.mode closed)
      (job.popUntil place kind unmatched stack output) fun result r' =>
        r' = { s with output := result.1, operators := result.2 }.replay job.mode closed := by
  induction stack generalizing output with
  | nil => exact .fail _
  | cons top below ih =>
    rw [popUntil]
    split
    · exact .answer rfl
    · exact .emit rfl rfl (after_moveOperator output below) ⟨rfl, rfl⟩ (ih _)

theorem follows_closeGroup (kind : Kind) (unmatched : Defect) :
    Follows now job.mode place.moment (s.replay job.mode closed)
      (job.closeGroup s place kind unmatched) fun result r' =>
        r' = result.2.replay job.mode (some (result.1.opened job.mode)) ∧
          result.2.pending = s.pending := by
  refine Follows.bind (job.follows_popUntil kind unmatched s.operators s.output) ?_
  rintro ⟨output, stack⟩ _ rfl
  dsimp only
  cases stack with
  | nil => exact .fail _
  | cons bracket below =>
    cases s.groups with
    | nil => exact .fail _
    | cons group around =>
      exact .emit rfl rfl (after_dropBracket output below group around) ⟨rfl, rfl⟩
        (.answer ⟨rfl, rfl⟩)

theorem follows_checkNotEmpty {r : Replay} {m : Mode} {moment : Moment} :
    Follows now m moment r (job.checkNotEmpty s group) fun _ r' => r' = r := by
  rw [checkNotEmpty]
  split
  · exact .fail _
  · exact .answer rfl

/-! ### Arguments -/

theorem follows_checkCount {r : Replay} {m : Mode} {moment : Moment} (owner : Token) (count : Nat) :
    Follows now m moment r (job.checkCount owner count) fun _ r' => r' = r := by
  rw [checkCount]
  split
  · exact .fail _
  · exact .answer rfl

theorem follows_checkCounts {r : Replay} {m : Mode} {moment : Moment} (owner : Token)
    (count : Nat) : Follows now m moment r (job.checkCounts owner count) fun _ r' => r' = r := by
  rw [checkCounts]
  have hfold (indices : List Nat) (start : Run Unit)
      (hstart : Follows now m moment r start fun _ r' => r' = r) :
      Follows now m moment r (indices.foldl (fun run i => run.bind fun _ =>
        job.checkCount owner (i + 1)) start) fun _ r' => r' = r := by
    induction indices generalizing start with
    | nil => exact hstart
    | cons i indices ih =>
      refine ih _ (hstart.bind ?_)
      rintro _ _ rfl
      exact job.follows_checkCount owner _
  exact hfold _ _ (.answer rfl)

theorem follows_attach {owner : Token} {args : List (List Token)}
    (hargs : args = if (job.takeArgument s group).1.isEmpty then job.mode.inOrder group.args
      else job.mode.inOrder ((job.takeArgument s group).1 :: group.args)) :
    Follows now job.mode place.moment (s.replay job.mode (some (group.opened job.mode)))
      ((job.takeArgument s group).2.attach place owner args)
      fun s' r' => r' = s'.replay job.mode none := by
  refine Follows.mono (follows_report (after_attachArguments job group hargs)) ?_
  rintro _ _ ⟨rfl, rfl⟩
  rfl

/-- From the left, a call is completed when its bracket is closed. -/
theorem follows_closeCall (hm : job.mode = .rpn) (owner : Token) :
    Follows now job.mode place.moment (s.replay job.mode (some (group.opened job.mode)))
      (job.closeCall s place owner group) fun s' r' => r' = s'.replay job.mode none := by
  rw [closeCall]
  dsimp only
  split
  · next hempty =>
    split
    · next hargs =>
      refine job.follows_attach ?_
      rw [if_pos hempty, List.isEmpty_iff.1 hargs, hm]
      rfl
    · exact .fail _
  · next hne =>
    refine Follows.bind (job.follows_checkCount owner _) ?_
    rintro _ _ rfl
    refine job.follows_attach ?_
    rw [if_neg hne, hm]
    rfl

/-- From the right, it is completed when its name is scanned. -/
theorem follows_collectArguments (hm : job.mode = .pn) :
    Follows now job.mode place.moment (s.replay job.mode (some (group.opened job.mode)))
      (job.collectArguments s place group) fun s' r' => r' = s'.replay job.mode none := by
  rw [collectArguments]
  dsimp only
  split
  · exact .fail _
  · refine Follows.bind (job.follows_checkCounts place.token _) ?_
    rintro _ _ rfl
    refine job.follows_attach ?_
    rw [hm]
    rfl

theorem follows_endArgument {around : List Group} (hgroups : s.groups = group :: around)
    (owner : Token) :
    Follows now job.mode place.moment (s.replay job.mode closed)
      (job.endArgument s place group around owner) fun s' r' =>
        r'.separate job.mode = some (s'.replay job.mode closed) ∧ s'.pending = s.pending := by
  refine Follows.bind (job.follows_popUntil _ _ s.operators s.output) ?_
  rintro ⟨output, stack⟩ _ rfl
  dsimp only
  split
  · exact .fail _
  · next hne =>
    refine Follows.bind (job.follows_checkCount owner _) ?_
    rintro _ _ rfl
    exact .answer ⟨separate_takeArgument job group hgroups hne rfl rfl, rfl⟩

theorem follows_endSegment {around : List Group} (hgroups : s.groups = group :: around) :
    Follows now job.mode place.moment (s.replay job.mode closed)
      (job.endSegment s place group around) fun s' r' =>
        r'.separate job.mode = some (s'.replay job.mode closed) ∧ s'.pending = s.pending := by
  refine Follows.bind (job.follows_popUntil _ _ s.operators s.output) ?_
  rintro ⟨output, stack⟩ _ rfl
  dsimp only
  split
  · exact .fail _
  · next hne => exact .answer ⟨separate_takeArgument job group hgroups hne rfl rfl, rfl⟩

theorem follows_completeGroup :
    Follows now job.mode place.moment (s.replay job.mode closed) (job.completeGroup s place)
      fun s' r' => ∃ closed, r' = s'.replay job.mode closed ∧ Awaits job.mode s' closed := by
  refine Follows.bind (job.follows_closeGroup _ _) ?_
  rintro ⟨group, s⟩ _ ⟨rfl, -⟩
  dsimp only
  split
  · refine .answer ⟨_, rfl, fun _ waiting hwaiting => ?_⟩
    obtain rfl := Option.some.inj hwaiting
    rfl
  · split
    · exact .fail _
    · refine Follows.bind job.follows_checkNotEmpty ?_
      rintro _ _ rfl
      exact .answer ⟨_, rfl, fun _ _ h => by cases h⟩

/-! ### Scans -/

/-- After a token has been scanned, the replay is the state again. -/
def Scanned (place : Place) (s : State) (r : Replay) : Prop :=
  ∃ closed, r.pass job.mode place.moment = some (s.replay job.mode closed) ∧
    Awaits job.mode s closed

theorem Scanned.of_ne {r : Replay} (hk : place.token.kind ≠ .separator)
    (h : ∃ closed, r = s.replay job.mode closed ∧ Awaits job.mode s closed) :
    job.Scanned place s r := by
  obtain ⟨closed, rfl, hawaits⟩ := h
  refine ⟨closed, if_neg ?_, hawaits⟩
  simpa [Place.moment, isKind] using hk

theorem Scanned.of_separate {r : Replay} (hk : place.token.kind = .separator)
    (h : r.separate job.mode = some (s.replay job.mode closed))
    (hawaits : Awaits job.mode s closed) : job.Scanned place s r :=
  ⟨closed, (if_pos (by simp [Place.moment, isKind, hk])).trans h, hawaits⟩

theorem follows_putOut (hk : place.token.kind ≠ .separator) (hawaits : Awaits job.mode s closed) :
    Follows now job.mode place.moment (s.replay job.mode closed)
      ((s.putOut place.token).report place .insertValue place.token .nothing)
      (job.Scanned place) := by
  refine Follows.mono (follows_report after_putOut) ?_
  rintro _ _ ⟨rfl, rfl⟩
  exact .of_ne job hk ⟨closed, rfl, hawaits⟩

theorem follows_openGroup (hoperator : place.token.kind ≠ .operator)
    (hseparator : place.token.kind ≠ .separator) (hawaits : Awaits job.mode s closed)
    (owner : Option Token) (remark : Remark) :
    Follows now job.mode place.moment (s.replay job.mode closed) (s.openGroup place owner remark)
      (job.Scanned place) := by
  refine Follows.mono (follows_report (after_open hoperator place.index owner)) ?_
  rintro _ _ ⟨rfl, rfl⟩
  exact .of_ne job hseparator ⟨closed, rfl, hawaits⟩

theorem follows_operator (hk : place.token.kind = .operator) (hawaits : Awaits job.mode s closed) :
    Follows now job.mode place.moment (s.replay job.mode closed) (job.pushOperator s place)
      (job.Scanned place) := by
  refine Follows.mono (job.follows_pushOperator hk) ?_
  rintro s' _ ⟨rfl, hpending⟩
  refine .of_ne job (by simp [hk]) ⟨closed, rfl, ?_⟩
  rw [Awaits, hpending]
  exact hawaits

/-- **The scan of a token from the left can be followed.** -/
theorem follows_visitForward (hm : job.mode = .rpn) :
    Follows now job.mode place.moment (s.replay job.mode closed) (job.visitForward s place)
      (job.Scanned place) := by
  have hawaits (s : State) (closed : Option Opened) : Awaits job.mode s closed := fun h => by
    rw [hm] at h
    cases h
  rw [visitForward]
  cases hk : place.token.kind with
  | number | constant => exact job.follows_putOut (by simp [hk]) (hawaits _ _)
  | call =>
    refine Follows.bind (job.follows_putOut (by simp [hk]) (hawaits _ _)) fun s r hscanned => ?_
    split
    · exact .answer hscanned
    · exact .fail _
  | operator => exact job.follows_operator hk (hawaits _ _)
  | openBracket => exact job.follows_openGroup (by simp [hk]) (by simp [hk]) (hawaits _ _) _ _
  | closeBracket =>
    refine Follows.bind (job.follows_closeGroup _ _) ?_
    rintro ⟨group, s⟩ _ ⟨rfl, -⟩
    dsimp only
    split
    · refine Follows.bind job.follows_checkNotEmpty ?_
      rintro _ _ rfl
      exact .answer (.of_ne job (by simp [hk]) ⟨_, rfl, hawaits _ _⟩)
    · -- Until the arguments are attached, the replay remembers the group that was closed.
      refine Follows.mono (job.follows_closeCall hm _) ?_
      rintro s' _ rfl
      exact .of_ne job (by simp [hk]) ⟨_, rfl, hawaits _ _⟩
  | separator =>
    dsimp only
    split
    · exact .fail _
    · next group around hgroups =>
      split
      · exact .fail _
      · refine Follows.mono (job.follows_endArgument hgroups _) ?_
        rintro s' r' ⟨hseparate, -⟩
        exact .of_separate job hk hseparate (hawaits _ _)
  | other => exact .fail _

/-- **The scan of a token from the right can be followed.** -/
theorem follows_visitBackward (hm : job.mode = .pn) (hawaits : Awaits job.mode s closed) :
    Follows now job.mode place.moment (s.replay job.mode closed) (job.visitBackward s place)
      (job.Scanned place) := by
  rw [visitBackward]
  cases hk : place.token.kind with
  | number | constant => exact job.follows_putOut (by simp [hk]) hawaits
  | call =>
    dsimp only
    split
    · exact .fail _
    · next group hpending =>
      rw [hawaits hm group hpending]
      refine Follows.bind (job.follows_collectArguments hm) ?_
      rintro s' _ rfl
      exact job.follows_putOut (s := { s' with pending := none }) (by simp [hk])
        fun _ _ h => by cases h
  | operator => exact job.follows_operator hk hawaits
  | openBracket =>
    refine Follows.mono job.follows_completeGroup ?_
    intro s' r' h
    exact .of_ne job (by simp [hk]) h
  | closeBracket => exact job.follows_openGroup (by simp [hk]) (by simp [hk]) hawaits _ _
  | separator =>
    dsimp only
    split
    · exact .fail _
    · next group around hgroups =>
      refine Follows.mono (job.follows_endSegment hgroups) ?_
      rintro s' r' ⟨hseparate, hpending⟩
      refine .of_separate job hk hseparate ?_
      rw [Awaits, hpending]
      exact hawaits
  | other => exact .fail _

theorem follows_visit (hawaits : Awaits job.mode s closed) :
    Follows now job.mode place.moment (s.replay job.mode closed) (job.visit s place)
      (job.Scanned place) := by
  have hmode : job.mode = .rpn ∨ job.mode = .pn := by cases job.mode <;> simp
  rcases hmode with hm | hm
  · rw [show job.visit s place = job.visitForward s place by rw [visit, hm]]
    exact job.follows_visitForward hm
  · rw [show job.visit s place = job.visitBackward s place by rw [visit, hm]]
    exact job.follows_visitBackward hm hawaits

/-- The steps of a computation that scans several tokens can be replayed: to its answer, or as far
as it goes. -/
def Replayed {α : Type} (now : Surroundings) (moments : List Moment) (r : Replay)
    (c : Run α) (post : α → Replay → Prop) : Prop :=
  (∀ a, (c.trace now).2 = .ok a →
      ∃ r', Replays job.mode moments r (c.trace now).1 r' ∧ post a r') ∧
    ∀ failure, (c.trace now).2 = .error failure →
      BreaksOff job.mode moments r (c.trace now).1

/-- The scan of one token, and then whatever comes after it. -/
theorem Replayed.bind {α β : Type} {moment : Moment} {moments : List Moment} {r : Replay}
    {c : Run α} {f : α → Run β} {post : β → Replay → Prop} {mid : α → Replay → Prop}
    (hc : Follows now job.mode moment r c mid)
    (hf : ∀ a r₁, mid a r₁ → ∃ r₂, r₁.pass job.mode moment = some r₂ ∧
      job.Replayed now moments r₂ (f a) post) :
    job.Replayed now (moment :: moments) r (c.bind f) post := by
  obtain ⟨r₁, hmoves, hmid⟩ := hc
  rw [Replayed]
  cases hresult : (c.trace now).2 with
  | error failure =>
    rw [Stepwise.trace_bind_error hresult]
    exact ⟨nofun, fun _ _ => .here hmoves⟩
  | ok a =>
    obtain ⟨r₂, hpass, hok, herror⟩ := hf a r₁ (hmid a hresult)
    rw [Stepwise.trace_bind_ok hresult]
    refine ⟨fun b hb => ?_, fun failure hfailure => .later hmoves hpass (herror failure hfailure)⟩
    obtain ⟨r', hreplays, hpost⟩ := hok b hb
    exact ⟨r', .cons hmoves hpass hreplays, hpost⟩

/-- After the last token nothing happens without a step. -/
theorem Replayed.of_follows {α : Type} {moment : Moment} {r : Replay} {c : Run α}
    {post : α → Replay → Prop} (hmoment : moment.scanned = none)
    (h : Follows now job.mode moment r c post) : job.Replayed now [moment] r c post := by
  obtain ⟨r', hmoves, hpost⟩ := h
  refine ⟨fun a ha => ⟨r', ?_, hpost a ha⟩, fun _ _ => .here hmoves⟩
  have hpass : r'.pass job.mode moment = some r' := if_neg (by simp [hmoment, isKind])
  rw [← List.append_nil (c.trace now).1]
  exact .cons hmoves hpass (.nil r')

/-- The scan of several tokens, and then whatever comes after it. -/
theorem replayed_scan {α : Type} {tail : State → Run α} {moments : List Moment}
    {post : α → Replay → Prop}
    (htail : ∀ s closed, job.Replayed now moments (s.replay job.mode closed) (tail s) post)
    (visited : List Place) (s : State) (closed : Option Opened)
    (hawaits : Awaits job.mode s closed) :
    job.Replayed now (visited.map Place.moment ++ moments) (s.replay job.mode closed)
      ((job.scan visited s).bind tail) post := by
  induction visited generalizing s closed with
  | nil => exact htail s closed
  | cons place rest ih =>
    rw [scan, Stepwise.bind_eq, Stepwise.bind_assoc]
    refine Replayed.bind job (job.follows_visit hawaits) fun s' r₁ hscanned => ?_
    obtain ⟨closed', hpass, hawaits'⟩ := hscanned
    exact ⟨_, hpass, ih s' closed' hawaits'⟩

/-! ### Whole compilations -/

theorem follows_flush {m : Mode} (stack output : List Token) :
    Follows now m ⟨job.lastIndex, none⟩ ({ s with output, operators := stack }.replay m closed)
      (job.flush stack output) fun out r' =>
        r' = { s with output := out, operators := [] }.replay m closed := by
  induction stack generalizing output with
  | nil => exact .answer rfl
  | cons top below ih =>
    exact .emit rfl rfl (after_moveOperator output below) ⟨rfl, rfl⟩ (ih _)

theorem follows_checkClosed {r : Replay} {m : Mode} {moment : Moment} :
    Follows now m moment r (job.checkClosed s) fun _ r' => r' = r ∧ s.groups = [] := by
  rw [checkClosed]
  split
  · next hgroups => exact .answer ⟨rfl, hgroups⟩
  · exact .fail _

/-- The moments of a compilation: its tokens in the order of the scan, and the time after them. -/
def moments : List Moment :=
  (job.mode.scanOrder (places job.tokens)).map Place.moment ++ [⟨job.lastIndex, none⟩]

/-- **The steps of a compilation can be replayed**: to its result, or as far as it goes. -/
theorem run_replays : job.Replayed now job.moments .start job.run fun c r => r.Ends c := by
  have htail (s : State) (closed : Option Opened) :
      job.Replayed now [⟨job.lastIndex, none⟩] (s.replay job.mode closed)
        ((job.checkClosed s).bind fun _ => (job.flush s.operators s.output).bind fun output =>
          Stepwise.surroundings.bind fun now => .answer (Compiled.mk (job.mode.inOrder output)
            s.attached.reverse (now.registries.firstUnknown? job.tokens).isNone))
        fun c r => r.Ends c := by
    refine Replayed.of_follows job rfl (Follows.bind job.follows_checkClosed ?_)
    rintro _ _ ⟨rfl, hgroups⟩
    refine Follows.bind (job.follows_flush s.operators s.output) ?_
    rintro output _ rfl
    exact .look (.answer ⟨rfl, rfl, congrArg _ hgroups, rfl⟩)
  have hafter : job.Replayed now job.moments .start job.afterLook fun c r => r.Ends c := by
    have hscan := job.replayed_scan htail (job.mode.scanOrder (places job.tokens)) .start none
      fun _ _ h => by cases h
    have hstart : State.start.replay job.mode none = .start := by
      cases job.mode <;> rfl
    rw [hstart] at hscan
    exact hscan
  -- The first look takes no step, so what is left to replay is what comes after it.
  cases hfirst : job.firstCompiled? now.sheet with
  | none =>
    have htrace : job.run.trace now = job.afterLook.trace now := by
      rw [run_eq, checkFresh, Stepwise.bind, Stepwise.trace, hfirst]
      rfl
    rw [Replayed, htrace]
    exact hafter
  | some place =>
    have htrace : job.run.trace now = ((job.stopAt .alreadyCompiled place : Run Unit).bind fun _ =>
        job.afterLook).trace now := by
      rw [run_eq, checkFresh, Stepwise.bind, Stepwise.trace, hfirst]
    have hmoments : job.moments ≠ [] := by simp [moments]
    obtain ⟨moment, rest, hcons⟩ := List.exists_cons_of_ne_nil hmoments
    rw [Replayed, htrace, hcons]
    refine ⟨fun c h => ?_, fun _ _ => .here (.nil _)⟩
    cases h

/-- **The last step of a compilation shows its result**, with nothing left on the stack. -/
theorem run_last {c : Compiled} (h : (job.run.trace now).2 = .ok c) (hne : job.tokens ≠ []) :
    ∃ last, (job.run.trace now).1.getLast? = some last ∧ job.mode.inOrder last.output = c.listing ∧
      last.operators = [] := by
  obtain ⟨r, hreplays, hends⟩ := job.run_replays.1 c h
  rcases hreplays.last hends.groups with ⟨-, rfl⟩ | ⟨last, hlast, hlisting, hstack⟩
  · -- Without a step nothing would have been put out.
    rw [Stepwise.trace_snd] at h
    obtain ⟨-, p, hp, -, hsound, rfl⟩ := Job.run_ok_iff.1 h
    refine absurd hends.listing.symm (hsound.listing_ne_nil p fun hnil => hne ?_)
    rw [← hp, hnil]
    rfl
  · refine ⟨last, hlast, hlisting.trans hends.listing, ?_⟩
    exact List.reverse_eq_nil_iff.1 (hstack.trans hends.stack)

end Job

end Compile

end Polish
