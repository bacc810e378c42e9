import Mathlib.Data.List.Chain
import Mathlib.Data.List.Perm.Subperm
import Mathlib.Data.List.TakeWhile
import Polish.Proofs.Compile.Nesting

/-!
# What lies under an open bracket

An open bracket keeps what is inside it apart.  What had been put out and what was on the stack when
it was scanned stays as it was, and everything above that has been scanned since.

* `Rests` and `Ranked` — which operator may lie on which, and the stack of a scan;
* `Layer` and `Layers` — output and stack, cut at the brackets that are open;
* `State.Framed` — a state that has come of scanning some tokens.  Its layers are kept by a step
  (`Job.visit_framed`) and by a whole scan (`Job.framed_of_scans`);
* `Job.run_otherThanStray` — a separator finds the bracket of the innermost group on the stack, so
  it is never blamed for having none.

## How the proof goes

The invariant is `State.Framed`.  It takes the output and the stack apart at the open groups into
layers, and says of each layer that it was made of what has been scanned since the group's bracket,
in some order, with brackets in it that all have partners.  Below its bracket a layer is exactly
what was there when the bracket was scanned, which is the content of the claim that brackets keep
apart.

A token touches the uppermost layer only (`Layers.put`, `Layers.push`), with two exceptions: an
opening bracket begins a new one, and a closing one ends it.  For the operators on the stack the
layers are too coarse, so `Ranked` says by itself which of them may lie on which.
`level_of_not_leaves` is the reason why it is kept: what stays on the stack is what the new operator
may lie on.
-/

set_option autoImplicit false

namespace Polish.Compile

variable {job : Job} {now : Surroundings} {m : Mode} {operators : Table Operator}
  {place : Place} {visited inside : List Place} {s : State} {group : Group} {around : List Group}

/-! ## Operators on the stack -/

/-- An operator may lie on another one that binds less, or that has the same level if it groups in
the direction of the scan.  Nothing is said of brackets. -/
def Rests (m : Mode) (operators : Table Operator) (upper lower : Token) : Prop :=
  upper.kind = .operator → lower.kind = .operator →
    ∃ u l, operators.find? upper.text = some u ∧ operators.find? lower.text = some l ∧
      (l.level < u.level ∨ l.level = u.level ∧ u.rightAssociative = (m == .rpn))

/-- The operators on a stack are registered, and each one may lie on what is below it. -/
structure Ranked (m : Mode) (operators : Table Operator) (stack : List Token) : Prop where
  registered : ∀ t ∈ stack, t.kind = .operator → ∃ o, operators.find? t.text = some o
  chain : stack.IsChain (Rests m operators)

/-- What does not leave the stack for an operator is what the operator may lie on. -/
theorem level_of_not_leaves {u l : Operator} (h : Job.leaves m u l = false) :
    l.level < u.level ∨ l.level = u.level ∧ u.rightAssociative = (m == .rpn) := by
  rw [Job.leaves] at h
  split at h
  · next heq =>
    refine .inr ⟨heq, ?_⟩
    cases m <;> cases hu : u.rightAssociative <;> simp_all
  · next hne =>
    have hle : ¬ u.level < l.level := of_decide_eq_false h
    exact .inl (by omega)

namespace Ranked

variable {stack below : List Token} {t : Token} {operator : Operator}

theorem nil : Ranked m operators [] := ⟨fun _ ht => absurd ht List.not_mem_nil, .nil⟩

theorem of_suffix (h : Ranked m operators stack) (hbelow : below <:+ stack) :
    Ranked m operators below :=
  ⟨fun t ht => h.registered t (hbelow.subset ht), h.chain.suffix hbelow⟩

/-- A bracket may lie on anything. -/
theorem bracket (h : Ranked m operators stack) (ht : t.kind ≠ .operator) :
    Ranked m operators (t :: stack) where
  registered := List.forall_mem_cons.2 ⟨fun hk => absurd hk ht, h.registered⟩
  chain := h.chain.cons fun _ _ hk => absurd hk ht

/-- An operator lies on what it has left on the stack. -/
theorem push (h : Ranked m operators stack) (hfind : operators.find? t.text = some operator) :
    Ranked m operators (t :: stack.dropWhile (gives m operators operator)) := by
  have hbelow := h.of_suffix (List.dropWhile_suffix (gives m operators operator))
  refine ⟨List.forall_mem_cons.2 ⟨fun _ => ⟨operator, hfind⟩, hbelow.registered⟩,
    hbelow.chain.cons ?_⟩
  intro lower hlower _ hk
  obtain ⟨l, hl⟩ := hbelow.registered lower (List.mem_of_mem_head? hlower) hk
  have hstays : gives m operators operator lower = false := by
    have hnot := List.head?_dropWhile_not (gives m operators operator) stack
    rw [Option.mem_def.1 hlower] at hnot
    exact hnot
  refine ⟨operator, l, hfind, hl, level_of_not_leaves ?_⟩
  simpa [gives, hk, hl] using hstays

end Ranked

/-! ## Layers -/

/-- What has been put out and what is on the stack since a bracket was scanned: it has been scanned
since, and no brackets are open in it. -/
structure Layer (m : Mode) (inside : List Place) (new above : List Token) : Prop where
  balanced : Balanced (m.scanOrder (inside.map Place.token))
  operators : ∀ t ∈ above, t.kind = .operator
  scanned : (new ++ above).Subperm (inside.map Place.token)

namespace Layer

variable {new above kept popped more : List Token} {places : List Place}

theorem nil : Layer m [] [] [] :=
  ⟨.scanOrder_nil, fun _ ht => absurd ht List.not_mem_nil, List.Subperm.refl []⟩

/-- Some of what is scanned next may be put out. -/
theorem put (h : Layer m inside new above)
    (hbalanced : Balanced (m.scanOrder (places.map Place.token)))
    (hmore : more.Subperm (places.map Place.token)) :
    Layer m (inside ++ places) (more ++ new) above where
  balanced := by
    rw [List.map_append]
    exact h.balanced.scanOrder_append hbalanced
  operators := h.operators
  scanned := by
    rw [List.map_append, List.append_assoc]
    exact (List.perm_append_comm.subperm_right).1 (h.scanned.append hmore)

/-- Operators leave the stack for another one. -/
theorem push (h : Layer m inside new (popped ++ kept)) (hk : place.token.kind = .operator) :
    Layer m (inside ++ [place]) (popped.reverse ++ new) (place.token :: kept) where
  balanced := by
    rw [List.map_append]
    exact h.balanced.scanOrder_append (.scanOrder_singleton (by rw [hk]; rfl))
  operators := List.forall_mem_cons.2 ⟨hk, fun t ht => h.operators t (List.mem_append_right _ ht)⟩
  scanned := by
    have hmoved : ((new ++ (popped ++ kept)) ++ [place.token]).Perm
        ((popped.reverse ++ new) ++ place.token :: kept) := by
      refine List.perm_iff_count.2 fun t => ?_
      simp only [List.count_append, List.count_reverse, List.count_cons, List.count_nil]
      omega
    rw [List.map_append]
    exact hmoved.subperm_right.1 (h.scanned.append (List.Subperm.refl _))

/-- All operators of a layer may go out. -/
theorem subperm_popped (h : Layer m inside new above) :
    (above.reverse ++ new).Subperm (inside.map Place.token) := by
  have hmoved : (new ++ above).Perm (above.reverse ++ new) :=
    List.perm_append_comm.trans (above.reverse_perm.symm.append_right new)
  exact hmoved.subperm_right.1 h.scanned

end Layer

/-- Output and stack when some tokens have been scanned: under each open group, newest first, they
are what they were in the state in which its bracket was scanned. -/
inductive Layers (job : Job) (now : Surroundings) :
    List Place → List Group → List Token → List Token → Prop
  | ground {visited : List Place} {output stack : List Token}
      (h : Layer job.mode visited output stack) : Layers job now visited [] output stack
  | group {before inside : List Place} {bracket : Place} {t : State} {group : Group}
      {new above : List Token} (hscan : Scans job now .start before t)
      (hlayers : Layers job now before t.groups t.output t.operators)
      (hkind : bracket.token.kind = job.mode.opener) (hbracket : group.bracket = bracket.token)
      (hstart : group.start = t.output.length) (h : Layer job.mode inside new above) :
      Layers job now (before ++ bracket :: inside) (group :: t.groups) (new ++ t.output)
        (above ++ bracket.token :: t.operators)

namespace Layers

variable {groups : List Group} {output stack more popped kept : List Token} {places : List Place}

theorem put (h : Layers job now visited groups output stack)
    (hbalanced : Balanced (job.mode.scanOrder (places.map Place.token)))
    (hmore : more.Subperm (places.map Place.token)) :
    Layers job now (visited ++ places) groups (more ++ output) stack := by
  cases h with
  | ground h => exact .ground (h.put hbalanced hmore)
  | group hscan hlayers hkind hbracket hstart h =>
    rw [List.append_assoc, List.cons_append, ← List.append_assoc]
    exact .group hscan hlayers hkind hbracket hstart (h.put hbalanced hmore)

/-- Only operators leave the stack for another one, so all of them are from the uppermost layer. -/
theorem push (h : Layers job now visited groups output (popped ++ kept))
    (hpopped : ∀ t ∈ popped, t.kind = .operator) (hk : place.token.kind = .operator) :
    Layers job now (visited ++ [place]) groups (popped.reverse ++ output)
      (place.token :: kept) := by
  generalize hstack : popped ++ kept = stack at h
  cases h with
  | ground h =>
    subst hstack
    exact .ground (h.push hk)
  | @group before inside bracket t group new above hscan hlayers hkind hbracket hstart h =>
    -- The bracket stays, and so does everything below it.
    obtain ⟨lower, rfl, rfl⟩ : ∃ lower, above = popped ++ lower ∧
        kept = lower ++ bracket.token :: t.operators := by
      obtain ⟨lower, rfl, hrest⟩ | ⟨upper, rfl, hrest⟩ := List.append_eq_append_iff.1 hstack
      · exact ⟨lower, rfl, hrest⟩
      · cases upper with
        | nil => exact ⟨[], by simp, by simpa using hrest.symm⟩
        | cons first upper =>
          obtain ⟨rfl, -⟩ := List.cons.inj hrest
          have hop := hpopped bracket.token (by simp)
          exact absurd (hkind.symm.trans hop) Mode.opener_ne_operator
    rw [List.append_assoc, List.cons_append, ← List.append_assoc, ← List.cons_append]
    exact .group hscan hlayers hkind hbracket hstart (h.push hk)

/-- A bracket is scanned, and everything is below it. -/
theorem opened (h : Layers job now visited s.groups s.output s.operators)
    (hscan : Scans job now .start visited s) (hk : place.token.kind = job.mode.opener)
    (hbracket : group.bracket = place.token) (hstart : group.start = s.output.length) :
    Layers job now (visited ++ [place]) (group :: s.groups) s.output
      (place.token :: s.operators) :=
  .group hscan h hk hbracket hstart .nil

theorem brackets_eq (h : Layers job now visited groups output stack) :
    brackets stack = groups.map Group.bracket := by
  have hnone (above : List Token) (h : ∀ t ∈ above, t.kind = .operator) : brackets above = [] := by
    refine List.filter_eq_nil_iff.2 fun t ht => ?_
    simp [h t ht]
  induction h with
  | ground h => exact hnone _ h.operators
  | group _ _ hkind hbracket _ h ih =>
    rw [List.map_cons, ← ih, hbracket, ← brackets_opener hkind, brackets, List.filter_append]
    rw [show List.filter _ _ = [] from hnone _ h.operators]
    rfl

theorem opener (h : Layers job now visited groups output stack) :
    ∀ g ∈ groups, g.bracket.kind = job.mode.opener := by
  induction h with
  | ground => exact fun _ hg => absurd hg List.not_mem_nil
  | group _ _ hkind hbracket _ _ ih => exact List.forall_mem_cons.2 ⟨hbracket ▸ hkind, ih⟩

/-- The offsets of the groups go down to the bottom. -/
theorem starts (h : Layers job now visited groups output stack) :
    (output.length :: groups.map Group.start).Pairwise (· ≥ ·) := by
  induction h with
  | ground => exact List.pairwise_singleton _ _
  | @group before inside bracket t group new above _ _ _ _ hstart _ ih =>
    rw [List.map_cons, hstart]
    refine List.pairwise_cons.2 ⟨List.forall_mem_cons.2 ⟨by simp, fun n hn => ?_⟩, ih⟩
    have hle : n ≤ t.output.length := List.rel_of_pairwise_cons ih hn
    rw [List.length_append]
    omega

end Layers

/-! ## Open and closed groups -/

/-- A bracket was scanned in a state, and the length of the output at that time is remembered. -/
structure Opening (job : Job) (now : Surroundings) (before : List Place) (bracket : Place)
    (t : State) (start : Nat) : Prop where
  scans : Scans job now .start before t
  layers : Layers job now before t.groups t.output t.operators
  kind : bracket.token.kind = job.mode.opener
  start : start = t.output.length

/-- What has been put out inside a bracket has been scanned there, and all brackets match in it. -/
structure Enclosed (m : Mode) (inside : List Place) (out : List Token) : Prop where
  balanced : Balanced (m.scanOrder (inside.map Place.token))
  scanned : out.Subperm (inside.map Place.token)

theorem Enclosed.nothing {out : List Token} (h : Enclosed m inside out) : Enclosed m inside [] :=
  ⟨h.balanced, List.nil_subperm⟩

namespace Opening

variable {before : List Place} {bracket : Place} {t : State} {start : Nat} {out : List Token}

/-- Nothing is left of what has been inside the bracket. -/
theorem spliced (h : Opening job now before bracket t group.start)
    (hbracket : group.bracket = bracket.token)
    (hbalanced : Balanced (job.mode.scanOrder (inside.map Place.token))) :
    Layers job now (before ++ bracket :: inside) (group :: t.groups) t.output
      (bracket.token :: t.operators) := by
  have hlayer : Layer job.mode inside [] [] :=
    ⟨hbalanced, fun _ ht => absurd ht List.not_mem_nil, List.nil_subperm⟩
  exact .group h.scans h.layers h.kind hbracket h.start hlayer

/-- The group is closed, and what has been put out last is from between its brackets. -/
theorem closed (h : Opening job now before bracket t start)
    (henclosed : Enclosed job.mode inside out) {partner : Place}
    (hpartner : partner.token.kind = job.mode.closer) :
    Layers job now (before ++ bracket :: inside ++ [partner]) t.groups (out ++ t.output)
      t.operators := by
  have hput : Layers job now (before ++ (bracket :: inside ++ [partner])) t.groups
      (out ++ t.output) t.operators := by
    refine h.layers.put ?_ (henclosed.scanned.trans (List.Sublist.subperm ?_))
    · simpa using henclosed.balanced.scanOrder_enclose h.kind hpartner
    · exact List.Sublist.map _ (.cons _ (List.sublist_append_left inside [partner]))
  simpa using hput

end Opening

/-- The innermost group of a state: what has been put out and pushed since its bracket was scanned
is from inside of it, and what was there before is as it was. -/
structure Innermost (job : Job) (now : Surroundings) (visited : List Place) (s : State)
    (group : Group) (before : List Place) (bracket : Place) (inside : List Place) (t : State)
    (out : List Token) : Prop where
  visited_eq : visited = before ++ bracket :: inside
  opening : Opening job now before bracket t group.start
  enclosed : Enclosed job.mode inside out
  bracket_eq : group.bracket = bracket.token
  groups : s.groups = group :: t.groups
  ranked : Ranked job.mode now.registries.operators (bracket.token :: t.operators)
  popUntil (place : Place) (unmatched : Defect) :
    (job.popUntil place job.mode.opener unmatched s.operators s.output).eager now
      = .ok (out ++ t.output, bracket.token :: t.operators)
  closeGroup (place : Place) (unmatched : Defect) :
    (job.closeGroup s place job.mode.opener unmatched).eager now
      = .ok (group, { s with
          output := out ++ t.output, operators := t.operators, groups := t.groups })

theorem Innermost.leads_popUntil {before : List Place} {bracket : Place} {t : State}
    {out : List Token} {kind : Kind} {unmatched : Defect} {blame : CompileError → Prop}
    (h : Innermost job now visited s group before bracket inside t out)
    (hkind : kind = job.mode.opener) :
    Leads now (· = (out ++ t.output, bracket.token :: t.operators)) blame
      (job.popUntil place kind unmatched s.operators s.output) := by
  rw [hkind]
  exact .of_ok (h.popUntil place unmatched) rfl

/-- A group that is complete and waits for the name of its call. -/
structure Waits (job : Job) (now : Surroundings) (visited : List Place) (s : State) (group : Group)
    (before : List Place) (bracket : Place) (inside : List Place) (partner : Place) (t : State)
    (out : List Token) : Prop where
  mode : job.mode = .pn
  visited_eq : visited = before ++ bracket :: inside ++ [partner]
  opening : Opening job now before bracket t group.start
  enclosed : Enclosed job.mode inside out
  partner_kind : partner.token.kind = job.mode.closer
  bracket_eq : group.bracket = partner.token
  call : isKind .call partner.before = true
  groups : s.groups = t.groups
  output : s.output = out ++ t.output
  operators : s.operators = t.operators

/-- A state that has come of scanning some tokens. -/
structure State.Framed (job : Job) (now : Surroundings) (visited : List Place) (s : State) :
    Prop where
  layers : Layers job now visited s.groups s.output s.operators
  ranked : Ranked job.mode now.registries.operators s.operators
  pending : ∀ g ∈ s.pending, ∃ before bracket inside partner t out,
    Waits job now visited s g before bracket inside partner t out

namespace State.Framed

variable {before : List Place} {bracket : Place} {t : State} {out : List Token}

theorem start : State.start.Framed job now [] :=
  ⟨.ground .nil, .nil, fun _ hg => by cases hg⟩

theorem of_pending (hlayers : Layers job now visited s.groups s.output s.operators)
    (hranked : Ranked job.mode now.registries.operators s.operators) (hpending : s.pending = none) :
    s.Framed job now visited := by
  refine ⟨hlayers, hranked, fun g hg => ?_⟩
  rw [hpending] at hg
  cases hg

theorem pending_forward (h : s.Framed job now visited) (hm : job.mode = .rpn) :
    s.pending = none := by
  cases hpending : s.pending with
  | none => rfl
  | some g =>
    obtain ⟨before, bracket, inside, partner, t, out, hwaits⟩ := h.pending g hpending
    cases hm.symm.trans hwaits.mode

/-- A group waits only as long as the name of its call is the next token. -/
theorem pending_backward (h : s.Framed job now visited)
    (hnext : ∀ last ∈ visited.getLast?, last.before = some place.token)
    (hk : place.token.kind ≠ .call) : s.pending = none := by
  cases hpending : s.pending with
  | none => rfl
  | some g =>
    obtain ⟨before, bracket, inside, partner, t, out, hwaits⟩ := h.pending g hpending
    have hcall := hwaits.call
    rw [hnext partner (by rw [hwaits.visited_eq, List.getLast?_concat]; rfl)] at hcall
    exact absurd (by simpa [isKind] using hcall) hk

/-- The bracket of an open group is among what has been scanned, and only operators are above it. -/
theorem innermost (h : s.Framed job now visited) (hg : s.groups = group :: around) :
    ∃ before bracket inside t out, Innermost job now visited s group before bracket inside t out ∧
      around = t.groups := by
  have hlayers := h.layers
  rw [hg] at hlayers
  generalize houtput : s.output = output at hlayers
  generalize hstack : s.operators = stack at hlayers
  cases hlayers with
  | @group before inside bracket t group new above hscan hlayers hkind hbracket hstart hlayer =>
    have habove : ∀ u ∈ above, u.kind ≠ job.mode.opener := by
      intro u hu
      rw [hlayer.operators u hu]
      exact Mode.opener_ne_operator.symm
    refine ⟨before, bracket, inside, t, above.reverse ++ new, ?_, rfl⟩
    refine ⟨rfl, ⟨hscan, hlayers, hkind, hstart⟩, ⟨hlayer.balanced, hlayer.subperm_popped⟩,
      hbracket, hg, ?ranked, ?popUntil, ?closeGroup⟩
    case ranked =>
      refine h.ranked.of_suffix ?_
      rw [hstack]
      exact List.suffix_append _ _
    case popUntil =>
      intro place unmatched
      rw [hstack, houtput, popUntil_eager hkind t.operators above _ habove, List.append_assoc]
    case closeGroup =>
      intro place unmatched
      rw [closeGroup_eager hstack hg hkind habove, houtput, List.append_assoc]

/-- A token that is no bracket changes nothing that is open. -/
theorem put (h : s.Framed job now visited) (hpending : s.pending = none)
    (hk : place.token.kind.weight = 0) :
    (s.putOut place.token).Framed job now (visited ++ [place]) := by
  have hlayers : Layers job now (visited ++ [place]) s.groups ([place.token] ++ s.output)
      s.operators := h.layers.put (.scanOrder_singleton hk) (List.Subperm.refl _)
  exact of_pending hlayers h.ranked hpending

/-- A bracket opens a group. -/
theorem opened (h : s.Framed job now visited) (hscan : Scans job now .start visited s)
    (hpending : s.pending = none) (hk : place.token.kind = job.mode.opener)
    (hbracket : group.bracket = place.token) (hstart : group.start = s.output.length) :
    State.Framed job now (visited ++ [place])
      { s with operators := place.token :: s.operators, groups := group :: s.groups } := by
  refine of_pending (h.layers.opened hscan hk hbracket hstart) ?_ hpending
  refine h.ranked.bracket ?_
  rw [hk]
  exact Mode.opener_ne_operator

/-- A separator takes everything off that has been put out since the bracket. -/
theorem separated {group' : Group}
    (hin : Innermost job now visited s group before bracket inside t out)
    (hbracket : group'.bracket = group.bracket) (hstart : group'.start = group.start)
    (hpending : s.pending = none) (hk : place.token.kind.weight = 0) :
    State.Framed job now (visited ++ [place])
      { s with
        output := t.output
        operators := bracket.token :: t.operators
        groups := group' :: t.groups } := by
  refine of_pending ?_ hin.ranked hpending
  have hbalanced : Balanced (job.mode.scanOrder ((inside ++ [place]).map Place.token)) := by
    rw [List.map_append]
    exact hin.enclosed.balanced.scanOrder_append (.scanOrder_singleton hk)
  have hopening := hin.opening
  rw [← hstart] at hopening
  rw [hin.visited_eq]
  simpa using hopening.spliced (hbracket.trans hin.bracket_eq) hbalanced

end State.Framed

/-! ## Neighbours -/

theorem before_of_placesFrom {before : Option Token} {index : Nat} {tokens : List Token}
    {earlier later : List Place} {next : Place}
    (h : placesFrom before index tokens = earlier ++ place :: next :: later) :
    next.before = some place.token := by
  induction tokens generalizing before index earlier with
  | nil => simp [placesFrom] at h
  | cons t rest ih =>
    rw [placesFrom] at h
    cases earlier with
    | nil =>
      obtain ⟨rfl, hrest⟩ := List.cons.inj h
      cases rest with
      | nil => cases hrest
      | cons u rest =>
        rw [placesFrom] at hrest
        obtain ⟨rfl, -⟩ := List.cons.inj hrest
        rfl
    | cons first earlier =>
      obtain ⟨-, h⟩ := List.cons.inj h
      exact ih h

/-- Each place but the first one knows the token before it. -/
theorem before_of_places {tokens : List Token} {earlier later : List Place} {next : Place}
    (h : places tokens = earlier ++ place :: next :: later) : next.before = some place.token :=
  before_of_placesFrom h

/-! ## Operations -/

namespace Job

/-- Not that there is no bracket for a separator. -/
abbrev OtherThanStray (e : CompileError) : Prop := e.defect ≠ .unmatchedSeparator

theorem framed_pushOperator (h : s.Framed job now visited) (hpending : s.pending = none)
    (hk : place.token.kind = .operator) :
    Leads now (State.Framed job now (visited ++ [place])) OtherThanStray
      (job.pushOperator s place) := by
  refine ⟨fun s' hs' => ?_, blames_pushOperator fun _ => by simp⟩
  obtain ⟨operator, hfind, rfl⟩ := pushOperator_ok.1 hs'
  refine .of_pending ?_ (h.ranked.push hfind) hpending
  have hlayers := h.layers
  rw [← List.takeWhile_append_dropWhile (l := s.operators)
    (p := gives job.mode now.registries.operators operator)] at hlayers
  refine hlayers.push (fun t ht => ?_) hk
  have hgives := List.mem_takeWhile_imp ht
  rw [gives, Bool.and_eq_true] at hgives
  exact of_decide_eq_true hgives.1

theorem framed_endArgument (hm : job.mode = .rpn) (h : s.Framed job now visited)
    (hk : place.token.kind = .separator) (hg : s.groups = group :: around) (owner : Token) :
    Leads now (State.Framed job now (visited ++ [place])) OtherThanStray
      (job.endArgument s place group around owner) := by
  obtain ⟨before, bracket, inside, t, out, hin, rfl⟩ := h.innermost hg
  have hopener : Kind.openBracket = job.mode.opener := by rw [hm]; rfl
  refine (hin.leads_popUntil hopener).bind fun result hresult => ?_
  obtain rfl := hresult
  dsimp only
  rw [takeArgument_append rfl hin.opening.start]
  dsimp only
  split
  · exact .of_stop (by simp)
  · refine (Leads.of_blames (blames_checkCount owner _)).bind fun _ _ => .of_ok rfl ?_
    exact .separated hin rfl rfl (h.pending_forward hm) (by rw [hk]; rfl)

theorem framed_endSegment (hm : job.mode = .pn) (h : s.Framed job now visited)
    (hpending : s.pending = none) (hk : place.token.kind = .separator)
    (hg : s.groups = group :: around) :
    Leads now (State.Framed job now (visited ++ [place])) OtherThanStray
      (job.endSegment s place group around) := by
  obtain ⟨before, bracket, inside, t, out, hin, rfl⟩ := h.innermost hg
  have hopener : Kind.closeBracket = job.mode.opener := by rw [hm]; rfl
  refine (hin.leads_popUntil hopener).bind fun result hresult => ?_
  obtain rfl := hresult
  dsimp only
  rw [takeArgument_append rfl hin.opening.start]
  dsimp only
  split
  · exact .of_stop (by simp)
  · exact .of_ok rfl (.separated hin rfl rfl hpending (by rw [hk]; rfl))

theorem framed_closeGroup (h : s.Framed job now visited) {kind : Kind}
    (hkind : kind = job.mode.opener) {unmatched : Defect}
    (hunmatched : unmatched ≠ .unmatchedSeparator) :
    Leads now (fun result : Group × State => ∃ before bracket inside t out,
        Innermost job now visited s result.1 before bracket inside t out ∧
        result.2 = { s with
          output := out ++ t.output, operators := t.operators, groups := t.groups })
      OtherThanStray (job.closeGroup s place kind unmatched) := by
  refine ⟨fun result hresult => ?_, blames_closeGroup hunmatched⟩
  obtain ⟨group, s'⟩ := result
  obtain ⟨before, bracket, inside, t, out, hin, -⟩ := h.innermost (closeGroup_groups hresult)
  rw [hkind, hin.closeGroup] at hresult
  obtain ⟨-, rfl⟩ := Prod.mk.inj (Except.ok.inj hresult)
  exact ⟨before, bracket, inside, t, out, hin, rfl⟩

theorem framed_completeGroup (hm : job.mode = .pn) (h : s.Framed job now visited)
    (hk : place.token.kind = .openBracket) :
    Leads now (State.Framed job now (visited ++ [place])) OtherThanStray
      (job.completeGroup s place) := by
  have hpartner : place.token.kind = job.mode.closer := by rw [hk, hm]; rfl
  have hopener : Kind.closeBracket = job.mode.opener := by rw [hm]; rfl
  refine (framed_closeGroup h hopener (by simp)).bind fun result hresult => ?_
  obtain ⟨group, s'⟩ := result
  obtain ⟨before, bracket, inside, t, out, hin, rfl⟩ := hresult
  obtain rfl := hin.visited_eq
  have hlayers := hin.opening.closed hin.enclosed hpartner
  have hranked := hin.ranked.of_suffix (List.suffix_cons _ _)
  dsimp only
  split
  · next hcall =>
    refine .of_ok rfl ⟨hlayers, hranked, fun g hg => ?_⟩
    obtain rfl := Option.mem_some_iff.1 hg
    exact ⟨before, bracket, inside, place, t, out, hm, rfl, hin.opening, hin.enclosed, hpartner,
      rfl, hcall, rfl, rfl, rfl⟩
  · split
    · exact .of_stop (by simp)
    · exact (Leads.of_blames (blames_checkNotEmpty (by simp))).bind
        fun _ _ => .of_ok rfl (.of_pending hlayers hranked rfl)

/-! ## Single tokens -/

theorem visitForward_framed (hm : job.mode = .rpn) (h : s.Framed job now visited)
    (hscan : Scans job now .start visited s) :
    Leads now (State.Framed job now (visited ++ [place])) OtherThanStray
      (job.visitForward s place) := by
  have hpending := h.pending_forward hm
  rw [visitForward]
  cases hk : place.token.kind with
  | number | constant => exact .of_ok rfl (h.put hpending (by rw [hk]; rfl))
  | call =>
    have hput : Leads now (State.Framed job now (visited ++ [place])) OtherThanStray
        ((s.putOut place.token).report place .insertValue place.token .nothing) :=
      .of_ok rfl (h.put hpending (by rw [hk]; rfl))
    refine hput.bind fun s hs => ?_
    split
    · exact .of_ok rfl hs
    · exact .of_stop (by simp)
  | operator => exact framed_pushOperator h hpending hk
  | openBracket => exact .of_ok rfl (h.opened hscan hpending (by rw [hk, hm]; rfl) rfl rfl)
  | closeBracket =>
    have hpartner : place.token.kind = job.mode.closer := by rw [hk, hm]; rfl
    have hopener : Kind.openBracket = job.mode.opener := by rw [hm]; rfl
    refine (framed_closeGroup h hopener (by simp)).bind fun result hresult => ?_
    obtain ⟨group, s'⟩ := result
    obtain ⟨before, bracket, inside, t, out, hin, rfl⟩ := hresult
    -- Scanned so far are the tokens before the bracket, the bracket and what is inside.
    obtain rfl := hin.visited_eq
    have hranked := hin.ranked.of_suffix (List.suffix_cons _ _)
    dsimp only
    split
    · have hlayers := hin.opening.closed hin.enclosed hpartner
      exact (Leads.of_blames (blames_checkNotEmpty (by simp))).bind
        fun _ _ => .of_ok rfl (.of_pending hlayers hranked hpending)
    · refine ⟨fun s' hs' => ?_, blames_closeCall _ (by simp)⟩
      obtain ⟨attached, rfl⟩ := closeCall_taken hs'
      rw [takeArgument_append rfl hin.opening.start]
      exact .of_pending (hin.opening.closed hin.enclosed.nothing hpartner) hranked hpending
  | separator =>
    dsimp only
    split
    · exact .of_stop (by simp)
    · next group around hg =>
      split
      · exact .of_stop (by simp)
      · exact framed_endArgument hm h hk hg _
  | other => exact .of_stop (by simp)

theorem visitBackward_framed (hm : job.mode = .pn) (h : s.Framed job now visited)
    (hscan : Scans job now .start visited s)
    (hnext : ∀ last ∈ visited.getLast?, last.before = some place.token) :
    Leads now (State.Framed job now (visited ++ [place])) OtherThanStray
      (job.visitBackward s place) := by
  have hpending := h.pending_backward hnext
  rw [visitBackward]
  cases hk : place.token.kind with
  | number | constant => exact .of_ok rfl (h.put (hpending (by simp [hk])) (by rw [hk]; rfl))
  | call =>
    dsimp only
    split
    · exact .of_stop (by simp)
    · next group hgroup =>
      obtain ⟨before, bracket, inside, partner, t, out, hwaits⟩ := h.pending group hgroup
      obtain rfl := hwaits.visited_eq
      have hcollect : Leads now (fun s' => ∃ attached, s' = { s with output := t.output, attached })
          OtherThanStray (job.collectArguments s place group) := by
        refine ⟨fun s' hs' => ?_, blames_collectArguments (by simp)⟩
        obtain ⟨attached, rfl⟩ := collectArguments_taken hs'
        rw [takeArgument_append hwaits.output hwaits.opening.start]
        exact ⟨attached, rfl⟩
      refine hcollect.bind fun s' hs' => .of_ok rfl ?_
      obtain ⟨attached, rfl⟩ := hs'
      -- With its argument gone, the group has left nothing, and the name is put out around it.
      refine State.Framed.put (.of_pending ?_ h.ranked rfl) rfl (by rw [hk]; rfl)
      have hlayers := hwaits.opening.closed hwaits.enclosed.nothing hwaits.partner_kind
      rwa [← hwaits.groups, ← hwaits.operators] at hlayers
  | operator => exact framed_pushOperator h (hpending (by simp [hk])) hk
  | closeBracket =>
    exact .of_ok rfl (h.opened hscan (hpending (by simp [hk])) (by rw [hk, hm]; rfl) rfl rfl)
  | openBracket => exact framed_completeGroup hm h hk
  | separator =>
    dsimp only
    split
    · exact .of_stop (by simp)
    · next group around hg => exact framed_endSegment hm h (hpending (by simp [hk])) hk hg
  | other => exact .of_stop (by simp)

/-- The token before the one that was scanned last, from the right, is the next one. -/
theorem before_of_scanned {rest : List Place} (hm : job.mode = .pn)
    (h : job.mode.scanOrder (places job.tokens) = visited ++ place :: rest) :
    ∀ last ∈ visited.getLast?, last.before = some place.token := by
  intro last hlast
  obtain ⟨earlier, rfl⟩ := List.getLast?_eq_some_iff.1 hlast
  rw [hm, Mode.scanOrder, List.reverse_eq_iff] at h
  exact before_of_places (by simpa using h)

/-- **A step of a scan** keeps the layers under the open brackets, and there is a bracket for each
separator. -/
theorem visit_framed {rest : List Place}
    (hsplit : job.mode.scanOrder (places job.tokens) = visited ++ place :: rest)
    (h : s.Framed job now visited) (hscan : Scans job now .start visited s) :
    Leads now (State.Framed job now (visited ++ [place])) OtherThanStray (job.visit s place) := by
  rw [visit]
  split
  · next hm => exact visitForward_framed hm h hscan
  · next hm => exact visitBackward_framed hm h hscan (before_of_scanned hm hsplit)

/-! ## Whole scans -/

/-- The next part of a scan, whatever has been scanned before. -/
theorem scan_framed (visited rest : List Place) {ahead : List Place}
    (hsplit : job.mode.scanOrder (places job.tokens) = visited ++ rest ++ ahead)
    (h : s.Framed job now visited) (hscan : Scans job now .start visited s) :
    Leads now (State.Framed job now (visited ++ rest)) OtherThanStray (job.scan rest s) := by
  induction rest generalizing visited s with
  | nil =>
    rw [List.append_nil]
    exact .of_ok rfl h
  | cons place rest ih =>
    have hnext : job.mode.scanOrder (places job.tokens) = visited ++ place :: (rest ++ ahead) := by
      simpa using hsplit
    obtain ⟨hframed, hblames⟩ := visit_framed hnext h hscan
    have hrest (t : State) (ht : (job.visit s place).eager now = .ok t) :
        Leads now (State.Framed job now (visited ++ place :: rest)) OtherThanStray
          (job.scan rest t) := by
      have hstep := ih (visited ++ [place]) (by simpa using hsplit) (hframed t ht)
        (scans_concat.2 ⟨s, hscan, ht⟩)
      simpa using hstep
    refine ⟨fun s' hs' => ?_, hblames.bind fun t ht => (hrest t ht).2⟩
    obtain ⟨t, ht, hs'⟩ := Stepwise.eager_bind_ok.1 hs'
    exact (hrest t ht).1 s' hs'

theorem framed_of_scans {rest : List Place}
    (hsplit : job.mode.scanOrder (places job.tokens) = visited ++ rest)
    (hscan : Scans job now .start visited s) : s.Framed job now visited :=
  (scan_framed [] visited hsplit .start (scans_nil.2 rfl)).1 s hscan

/-- No separator is without a bracket that has been scanned before. -/
theorem run_otherThanStray : Blames now OtherThanStray job.run := by
  have hscan : Leads now _ OtherThanStray
      (job.scan (job.mode.scanOrder (places job.tokens)) .start) :=
    scan_framed [] _ (List.append_nil _).symm .start (scans_nil.2 rfl)
  refine Blames.bind ?_ fun _ _ => hscan.2.bind fun s hs => Blames.bind ?_ fun _ _ =>
    (Blames.of_ok (flush_eager _ _)).bind fun _ _ => .of_ok rfl
  · rw [checkFresh]
    intro e he
    rw [Stepwise.eager_look] at he
    split at he
    · exact Blames.of_stop (by simp) e he
    · cases he
  · rw [checkClosed]
    split
    · exact .of_ok rfl
    · cases hm : job.mode with
      | rpn | pn => exact .of_stop (by simp)

end Job

end Polish.Compile
