import Polish.Proofs.Compile.Frames

/-!
# Taking arguments off the output

The output of a scan grows at its end, except that the arguments of a call are taken off it, from
the length that the group of the call has remembered.  However much has been pushed, popped and
taken off since that length was written down, what is taken off has been scanned inside the brackets
of the group, and the output is again what it was before them.

* `Splices` — where a scan takes an argument off;
* `Encloses` — the brackets of a group in what has been scanned;
* `Grows` — what a step does to the output otherwise;
* `Job.scan_keeps_frames` — stack, groups and output fit together at all times, nothing is taken off
  that has been scanned outside the brackets, and no separator is ever without one.

## How the proof goes

`Polish.Proofs.Compile.Frames` knows for each open group that the output below its start is the
output from the time when its bracket was scanned.  A splice cuts at just that place.  So what
remains is that and what goes is from inside, and the only question is which brackets there are at
the time of a splice: an open group (a separator), the innermost group that has just been closed (a
call, from the left), or the group that waits for its name (a call, from the right).  The three
constructors of `Splices` are these three, and `Splices.encloses` treats them one by one.

That nothing else takes anything off the output is a case analysis of the visits (`visit_grows`):
each either grows the output or contains one of the three splices and grows it otherwise.
-/

set_option autoImplicit false

namespace Polish.Compile

variable {job : Job} {now : Surroundings} {place : Place} {visited : List Place} {s s' : State}
  {group : Group}

/-! ## Splices -/

/-- A scan takes an argument of a group off the output: a separator or the other bracket has been
met, or the name of the call.  The last state is the one that it is taken in. -/
inductive Splices (job : Job) (now : Surroundings) (s : State) (place : Place) :
    Group → State → Prop
  | separator {group : Group} {around : List Group} {output operators : List Token}
      (hkind : place.token.kind = .separator) (hgroups : s.groups = group :: around)
      (howner : job.mode = .rpn → group.owner.isSome)
      (hpop : (job.popUntil place job.mode.opener .unmatchedSeparator s.operators s.output).eager
        now = .ok (output, operators)) :
      Splices job now s place group { s with output, operators }
  | closer {group : Group} {t : State} (hm : job.mode = .rpn)
      (hkind : place.token.kind = .closeBracket) (howner : group.owner.isSome)
      (hclose : (job.closeGroup s place .openBracket .unmatchedClose).eager now = .ok (group, t)) :
      Splices job now s place group t
  | call {group : Group} (hm : job.mode = .pn) (hkind : place.token.kind = .call)
      (hpending : s.pending = some group) : Splices job now s place group s

/-- What has been scanned, cut at the bracket that opened a group: what came before it, and what is
inside, up to the bracket that closed the group if that has been scanned. -/
inductive Encloses (m : Mode) (group : Group) : List Place → List Place → List Place → Prop
  | opened {before inside : List Place} {bracket : Place} (hkind : bracket.token.kind = m.opener)
      (hgroup : group.bracket = bracket.token)
      (hbalanced : Balanced (m.scanOrder (inside.map Place.token))) :
      Encloses m group (before ++ bracket :: inside) before inside
  | closed {before inside : List Place} {bracket partner : Place}
      (hkind : bracket.token.kind = m.opener) (hpartner : partner.token.kind = m.closer)
      (hgroup : group.bracket = partner.token)
      (hbalanced : Balanced (m.scanOrder (inside.map Place.token))) :
      Encloses m group (before ++ bracket :: inside ++ [partner]) before inside

theorem Opening.taken {before inside : List Place} {bracket : Place} {t u : State}
    {out : List Token} (h : Opening job now before bracket t group.start)
    (henclosed : Enclosed job.mode inside out) (hu : u.output = out ++ t.output) :
    (job.takeArgument u group).1.Subperm (inside.map Place.token) ∧
      (job.takeArgument u group).2 = { u with output := t.output } := by
  rw [Compile.takeArgument_append hu h.start]
  exact ⟨(job.mode.inOrder_perm out).subperm.trans henclosed.scanned, rfl⟩

theorem Innermost.encloses {before inside : List Place} {bracket : Place} {t : State}
    {out : List Token} (h : Innermost job now visited s group before bracket inside t out) :
    Encloses job.mode group visited before inside := by
  rw [h.visited_eq]
  exact .opened h.opening.kind h.bracket_eq h.enclosed.balanced

theorem Waits.encloses {before inside : List Place} {bracket partner : Place} {t : State}
    {out : List Token} (h : Waits job now visited s group before bracket inside partner t out) :
    Encloses job.mode group visited before inside := by
  rw [h.visited_eq]
  exact .closed h.opening.kind h.partner_kind h.bracket_eq h.enclosed.balanced

/-- What is taken off the output is from inside the brackets, and what was there before remains. -/
theorem Splices.encloses {u : State} (h : Splices job now s place group u)
    (hframed : s.Framed job now visited) :
    ∃ before inside t, Encloses job.mode group visited before inside ∧
      Scans job now .start before t ∧
      (job.takeArgument u group).1.Subperm (inside.map Place.token) ∧
      (job.takeArgument u group).2 = { u with output := t.output } := by
  cases h with
  | separator hkind hgroups howner hpop =>
    obtain ⟨before, bracket, inside, t, out, hin, -⟩ := hframed.innermost hgroups
    rw [hin.popUntil] at hpop
    obtain ⟨rfl, rfl⟩ := Prod.mk.inj (Except.ok.inj hpop)
    exact ⟨before, inside, t, hin.encloses, hin.opening.scans, hin.opening.taken hin.enclosed rfl⟩
  | closer hm hkind howner hclose =>
    obtain ⟨before, bracket, inside, t, out, hin, -⟩ := hframed.innermost (closeGroup_groups hclose)
    have hopener : Kind.openBracket = job.mode.opener := by rw [hm]; rfl
    rw [hopener, hin.closeGroup] at hclose
    obtain ⟨-, rfl⟩ := Prod.mk.inj (Except.ok.inj hclose)
    exact ⟨before, inside, t, hin.encloses, hin.opening.scans, hin.opening.taken hin.enclosed rfl⟩
  | call hm hkind hpending =>
    obtain ⟨before, bracket, inside, partner, t, out, hwaits⟩ := hframed.pending group hpending
    exact ⟨before, inside, t, hwaits.encloses, hwaits.opening.scans,
      hwaits.opening.taken hwaits.enclosed hwaits.output⟩

/-! ## Growing output -/

/-- The output grows, or it grows but for what is taken off in a splice. -/
def Grows (job : Job) (now : Surroundings) (s : State) (place : Place) (s' : State) : Prop :=
  s.output <:+ s'.output ∨ ∃ group u, Splices job now s place group u ∧ s.output <:+ u.output ∧
    (job.takeArgument u group).2.output <:+ s'.output

namespace Job

theorem pushOperator_grows (h : (job.pushOperator s place).eager now = .ok s') :
    Grows job now s place s' := by
  obtain ⟨operator, -, rfl⟩ := pushOperator_ok.1 h
  exact .inl (List.suffix_append _ _)

theorem visitForward_grows (hm : job.mode = .rpn)
    (h : (job.visitForward s place).eager now = .ok s') : Grows job now s place s' := by
  rw [visitForward] at h
  cases hk : place.token.kind with rw [hk] at h
  | number | constant =>
    obtain rfl := Except.ok.inj h
    exact .inl (List.suffix_cons _ _)
  | call =>
    obtain ⟨t, ht, h⟩ := Stepwise.eager_bind_ok.1 h
    obtain rfl := Except.ok.inj ht
    split at h
    · obtain rfl := Except.ok.inj h
      exact .inl (List.suffix_cons _ _)
    · exact (stopAt_eager.1 h).elim
  | operator => exact pushOperator_grows h
  | openBracket =>
    obtain rfl := Except.ok.inj h
    exact .inl List.suffix_rfl
  | closeBracket =>
    obtain ⟨⟨group, t⟩, hclose, h⟩ := Stepwise.eager_bind_ok.1 h
    have hgrows := closeGroup_grows hclose
    dsimp only at h
    split at h
    · obtain ⟨_, -, h⟩ := Stepwise.eager_bind_ok.1 h
      obtain rfl := Except.ok.inj h
      exact .inl hgrows
    · next owner howner =>
      obtain ⟨attached, rfl⟩ := closeCall_taken h
      -- Only here and at a separator is something taken off the output again.
      exact .inr ⟨group, t, .closer hm hk (by rw [howner]; rfl) hclose, hgrows, List.suffix_rfl⟩
  | separator =>
    dsimp only at h
    split at h
    · exact (stopAt_eager.1 h).elim
    · next group around hgroups =>
      split at h
      · exact (stopAt_eager.1 h).elim
      · next owner howner =>
        obtain ⟨output, operators, args, hpop, rfl⟩ := endArgument_taken h
        have hopener : Kind.openBracket = job.mode.opener := by rw [hm]; rfl
        rw [hopener] at hpop
        exact .inr ⟨group, _, .separator hk hgroups (fun _ => by rw [howner]; rfl) hpop,
          popUntil_grows hpop, List.suffix_rfl⟩
  | other => exact (stopAt_eager.1 h).elim

theorem visitBackward_grows (hm : job.mode = .pn)
    (h : (job.visitBackward s place).eager now = .ok s') : Grows job now s place s' := by
  rw [visitBackward] at h
  cases hk : place.token.kind with rw [hk] at h
  | number | constant =>
    obtain rfl := Except.ok.inj h
    exact .inl (List.suffix_cons _ _)
  | call =>
    dsimp only at h
    split at h
    · exact (stopAt_eager.1 h).elim
    · next group hpending =>
      obtain ⟨t, ht, h⟩ := Stepwise.eager_bind_ok.1 h
      obtain ⟨attached, rfl⟩ := collectArguments_taken ht
      obtain rfl := Except.ok.inj h
      exact .inr ⟨group, s, .call hm hk hpending, List.suffix_rfl, List.suffix_cons _ _⟩
  | operator => exact pushOperator_grows h
  | closeBracket =>
    obtain rfl := Except.ok.inj h
    exact .inl List.suffix_rfl
  | openBracket =>
    obtain ⟨group, t, pending, hclose, rfl⟩ := completeGroup_closed h
    have hgrows := closeGroup_grows hclose
    exact .inl hgrows
  | separator =>
    dsimp only at h
    split at h
    · exact (stopAt_eager.1 h).elim
    · next group around hgroups =>
      obtain ⟨output, operators, args, separator, hpop, rfl⟩ := endSegment_taken h
      have hopener : Kind.closeBracket = job.mode.opener := by rw [hm]; rfl
      rw [hopener] at hpop
      have howner : job.mode = .rpn → group.owner.isSome := by
        intro hrpn
        rw [hm] at hrpn
        cases hrpn
      exact .inr ⟨group, _, .separator hk hgroups howner hpop, popUntil_grows hpop,
        List.suffix_rfl⟩
  | other => exact (stopAt_eager.1 h).elim

theorem visit_grows (h : (job.visit s place).eager now = .ok s') : Grows job now s place s' := by
  rw [visit] at h
  split at h
  · next hm => exact visitForward_grows hm h
  · next hm => exact visitBackward_grows hm h

/-- **Stack, groups and output fit together in every scan.**  Whatever has been scanned, in either
direction, the brackets on the stack are those of the open groups and of the kind that opens one;
going down, the offsets of the groups never increase, and none is beyond the output; and each
operator may lie on the one below it.  The output shrinks in splices only, and a splice takes off
what has been put out since the bracket of its group was scanned: it is from inside of it, and the
output is what it was before.  No separator is ever without a bracket. -/
theorem scan_keeps_frames (job : Job) (now : Surroundings) :
    (∀ visited rest s, job.mode.scanOrder (places job.tokens) = visited ++ rest →
      Scans job now .start visited s →
        brackets s.operators = s.groups.map Group.bracket ∧
        (∀ g ∈ s.groups, g.bracket.kind = job.mode.opener) ∧
        (s.output.length :: s.groups.map Group.start).Pairwise (· ≥ ·) ∧
        s.operators.IsChain (Rests job.mode now.registries.operators) ∧
        (∀ place s', (job.visit s place).eager now = .ok s' → Grows job now s place s') ∧
        ∀ place group u, Splices job now s place group u →
          ∃ before inside t, Encloses job.mode group visited before inside ∧
            Scans job now .start before t ∧
            (job.takeArgument u group).1.Subperm (inside.map Place.token) ∧
            (job.takeArgument u group).2 = { u with output := t.output }) ∧
      ∀ e, job.run.eager now = .error (.compile e) → e.defect ≠ .unmatchedSeparator := by
  refine ⟨fun visited rest s hsplit hscan => ?_, run_otherThanStray⟩
  have hframed : s.Framed job now visited := framed_of_scans hsplit hscan
  have hlayers := hframed.layers
  exact ⟨hlayers.brackets_eq, hlayers.opener, hlayers.starts, hframed.ranked.chain,
    fun _ _ => visit_grows, fun _ _ _ hsplices => hsplices.encloses hframed⟩

/-- In `2^max(1,3+4*5)`, the closing bracket takes `3 4 5 * +` off, which has been put out since the
opening one, and leaves `2 max`. -/
theorem scan_keeps_frames_call : ∃ (job : Job) (now : Surroundings) (visited : List Place)
    (s : State) (place : Place) (group : Group) (u : State),
    visited.map (fun place => place.token.text)
      = ["2", "^", "max", "(", "1", ",", "3", "+", "4", "*", "5"] ∧
    Scans job now .start visited s ∧
    s.operators.map Token.text = ["*", "+", "(", "^"] ∧
    s.operators.IsChain (Rests job.mode now.registries.operators) ∧
    Splices job now s place group u ∧
    (job.takeArgument u group).1.map Token.text = ["3", "4", "5", "*", "+"] ∧
    (job.takeArgument u group).2.output.map Token.text = ["max", "2"] ∧
    ∃ before inside t, Encloses job.mode group visited before inside ∧
      Scans job now .start before t ∧
      (job.takeArgument u group).1.Subperm (inside.map Place.token) ∧
      (job.takeArgument u group).2 = { u with output := t.output } := by
  let tokens : List Token := [⟨.number, "2", 0, 0⟩, ⟨.operator, "^", 1, 1⟩, ⟨.call, "max", 2, 2⟩,
    ⟨.openBracket, "(", 3, 3⟩, ⟨.number, "1", 4, 4⟩, ⟨.separator, ",", 5, 5⟩, ⟨.number, "3", 6, 6⟩,
    ⟨.operator, "+", 7, 7⟩, ⟨.number, "4", 8, 8⟩, ⟨.operator, "*", 9, 9⟩, ⟨.number, "5", 10, 10⟩,
    ⟨.closeBracket, ")", 11, 11⟩]
  let job : Job := ⟨.rpn, Engine.standard.limits, none, tokens⟩
  let now : Surroundings := Engine.standard.surroundings .empty
  let group : Group := ⟨tokens[3], 3, 2, some tokens[2], [[tokens[4]]], none⟩
  let s : State := ⟨[tokens[10], tokens[8], tokens[6], tokens[2], tokens[0]],
    [tokens[9], tokens[7], tokens[3], tokens[1]], [group], none, []⟩
  let place : Place := ⟨tokens[11], 11, some tokens[10], none⟩
  have hscan : Scans job now .start ((places tokens).take 11) s := rfl
  let u : State := ⟨[tokens[7], tokens[9], tokens[10], tokens[8], tokens[6], tokens[2], tokens[0]],
    [tokens[1]], [], none, []⟩
  have hsplices : Splices job now s place group u := .closer rfl rfl rfl rfl
  obtain ⟨-, -, -, hchain, -, hencloses⟩ := (scan_keeps_frames job now).1 _ [place] s rfl hscan
  exact ⟨job, now, _, s, place, group, u, rfl, hscan, rfl, hchain, hsplices, rfl, rfl,
    hencloses place group u hsplices⟩

end Job

end Polish.Compile
