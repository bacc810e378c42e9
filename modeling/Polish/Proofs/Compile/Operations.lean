import Polish.Compile.Scan
import Polish.Proofs.Phrase.Acceptable
import Polish.Proofs.Stepwise

/-!
# What the parts of a scan do

One lemma for each operation of the compiler, saying what comes out of it when it runs to its end.
Proofs about whole scans use these and do not open the operations.

* `popOutranked_eager`, `pushOperator_ok`, `flush_eager`, `popUntil_eager`, `closeGroup_eager`,
  `takeArgument_append`, `checkCount_ok` and `checkCounts_ok` are about single operations;
* `closeCall_taken`, `endArgument_taken`, `collectArguments_taken` and `endSegment_taken` say what
  is left when an argument is off the output, `popUntil_grows` and `closeGroup_grows` that nothing
  else takes anything off it;
* `Scans` is a successful scan of some places; by `Scans.depth_forward` and `Scans.depth_backward`,
  the number of open groups follows the brackets.

## Why there is one lemma for each

Nearly every theorem about compilations needs to know what an operation does, and they need
different things: which answer it gives, which groups are open afterwards, what has become of the
output.  An operation that cannot fail has an equation (`_eager`), one that can has an equivalence
(`_ok`) whose right side lists all that has to hold for it to succeed, and for an operation that
ends an argument there is besides an inversion lemma (`_taken`), which says of a run that has
succeeded what it has done.  A change in one operation then shows in its own lemmas and nowhere
else.

The depth of brackets is the one thing that is proved of whole scans here, because nothing else is
needed for it: each visit changes the number of open groups by the weight of its token.
-/

set_option autoImplicit false

namespace Polish

namespace Compile

open Stepwise (eager_bind_ok eager_bind_of_ok)

variable {job : Job} {now : Surroundings} {place : Place} {s s' : State}

@[simp] theorem stop_eager {α : Type} {defect : Defect} {index : Nat} {token : Token} {a : α} :
    (job.stop defect index token : Run α).eager now = .ok a ↔ False := by
  simp [Job.stop]

@[simp] theorem stopAt_eager {α : Type} {defect : Defect} {a : α} :
    (job.stopAt defect place : Run α).eager now = .ok a ↔ False := by
  simp [Job.stopAt]

@[simp] theorem report_eager {move : Move} {token : Token} {remark : Remark} :
    (s.report place move token remark).eager now = .ok s := rfl

/-! ## Operators -/

/-- Whether a token on the stack is an operator that leaves it before a new one is pushed. -/
def gives (m : Mode) (operators : Table Operator) (operator : Operator) (top : Token) : Bool :=
  top.kind = .operator && (operators.find? top.text).any (Job.leaves m operator)

theorem popOutranked_eager {operator : Operator} (stack output : List Token) :
    (job.popOutranked place operator stack output).eager now
      = .ok ((stack.takeWhile (gives job.mode now.registries.operators operator)).reverse ++ output,
          stack.dropWhile (gives job.mode now.registries.operators operator)) := by
  induction stack generalizing output with
  | nil => rfl
  | cons top below ih =>
    rw [Job.popOutranked]
    by_cases hk : top.kind = .operator
    · rw [if_neg (by simpa using hk)]
      cases hf : now.registries.operators.find? top.text with
      | none => simp [hf, gives]
      | some other =>
        cases hl : Job.leaves job.mode operator other with
        | false => simp [hf, hl, gives]
        | true => simp [hf, hl, gives, hk, ih]
    · rw [if_pos hk]
      simp [gives, hk]

/-- An operator can be scanned exactly if it is registered. -/
theorem pushOperator_ok :
    (job.pushOperator s place).eager now = .ok s' ↔
      ∃ operator, now.registries.operators.find? place.token.text = some operator ∧
        s' = { s with
          output := (s.operators.takeWhile
            (gives job.mode now.registries.operators operator)).reverse ++ s.output
          operators := place.token ::
            s.operators.dropWhile (gives job.mode now.registries.operators operator) } := by
  rw [Job.pushOperator, Stepwise.eager_look]
  cases now.registries.operators.find? place.token.text with
  | none => simp
  | some operator =>
    simp only [Stepwise.bind_eq, eager_bind_ok, report_eager, popOutranked_eager, Option.some.injEq,
      Except.ok.injEq]
    constructor
    · rintro ⟨_, rfl, _, rfl, rfl⟩
      exact ⟨operator, rfl, rfl⟩
    · rintro ⟨_, rfl, rfl⟩
      exact ⟨s, rfl, _, rfl, rfl⟩

theorem flush_eager (stack output : List Token) :
    (job.flush stack output).eager now = .ok (stack.reverse ++ output) := by
  induction stack generalizing output with
  | nil => rfl
  | cons top below ih =>
    rw [Job.flush, Stepwise.eager_emit, ih]
    simp

/-! ## Brackets -/

theorem popUntil_eager {kind : Kind} {unmatched : Defect} {bracket : Token}
    (hb : bracket.kind = kind) (below : List Token) (inside output : List Token)
    (h : ∀ t ∈ inside, t.kind ≠ kind) :
    (job.popUntil place kind unmatched (inside ++ bracket :: below) output).eager now
      = .ok (inside.reverse ++ output, bracket :: below) := by
  induction inside generalizing output with
  | nil => simp [Job.popUntil, hb]
  | cons top inside ih =>
    rw [List.cons_append, Job.popUntil, if_neg (h top (by simp)), Stepwise.eager_emit,
      ih _ fun t ht => h t (by simp [ht])]
    simp

theorem closeGroup_eager {kind : Kind} {unmatched : Defect} {bracket : Token} {group : Group}
    {inside below : List Token} {around : List Group}
    (hs : s.operators = inside ++ bracket :: below) (hg : s.groups = group :: around)
    (hb : bracket.kind = kind) (h : ∀ t ∈ inside, t.kind ≠ kind) :
    (job.closeGroup s place kind unmatched).eager now
      = .ok (group, { s with
          output := inside.reverse ++ s.output, operators := below, groups := around }) := by
  rw [Job.closeGroup, Stepwise.bind_eq, hs,
    eager_bind_of_ok (popUntil_eager hb below inside s.output h), hg]
  rfl

/-- Closing a group takes the innermost one away. -/
theorem closeGroup_groups {kind : Kind} {unmatched : Defect} {group : Group}
    (h : (job.closeGroup s place kind unmatched).eager now = .ok (group, s')) :
    s.groups = group :: s'.groups := by
  simp only [Job.closeGroup, Stepwise.bind_eq, eager_bind_ok] at h
  obtain ⟨⟨output, operators⟩, -, h⟩ := h
  cases operators with
  | nil => simp at h
  | cons bracket below =>
    cases hg : s.groups with
    | nil => simp [hg] at h
    | cons first around =>
      simp only [hg, eager_bind_ok, report_eager, Except.ok.injEq] at h
      obtain ⟨_, rfl, h⟩ := h
      cases h
      rfl

/-- Whatever leaves the stack goes out. -/
theorem popUntil_grows {kind : Kind} {unmatched : Defect}
    {stack output output' operators : List Token}
    (h : (job.popUntil place kind unmatched stack output).eager now = .ok (output', operators)) :
    output <:+ output' := by
  induction stack generalizing output with
  | nil => simp [Job.popUntil] at h
  | cons top below ih =>
    rw [Job.popUntil] at h
    split at h
    · obtain ⟨rfl, -⟩ := Prod.mk.inj (Except.ok.inj h)
      exact List.suffix_rfl
    · exact (List.suffix_cons top output).trans (ih h)

theorem closeGroup_grows {kind : Kind} {unmatched : Defect} {group : Group}
    (h : (job.closeGroup s place kind unmatched).eager now = .ok (group, s')) :
    s.output <:+ s'.output := by
  simp only [Job.closeGroup, Stepwise.bind_eq, eager_bind_ok] at h
  obtain ⟨⟨output, operators⟩, hpop, h⟩ := h
  have hgrows := popUntil_grows hpop
  split at h
  · simp only [eager_bind_ok, report_eager, Except.ok.injEq] at h
    obtain ⟨_, rfl, h⟩ := h
    cases h
    exact hgrows
  · simp at h

theorem checkNotEmpty_ok {group : Group} {u : Unit} :
    (job.checkNotEmpty s group).eager now = .ok u ↔ s.output.length ≠ group.start := by
  rw [Job.checkNotEmpty]
  split
  · next h => simp [h]
  · next h => simp [h]

/-! ## Arguments -/

theorem takeArgument_append {group : Group} {new old : List Token} (hs : s.output = new ++ old)
    (hg : group.start = old.length) :
    job.takeArgument s group = (job.mode.inOrder new, { s with output := old }) := by
  have hcount : s.output.length - group.start = new.length := by simp [hs, hg]
  rw [Job.takeArgument, hcount, hs, List.take_left, List.drop_left]

theorem checkCount_ok {owner : Token} {count : Nat} {u : Unit} :
    (job.checkCount owner count).eager now = .ok u ↔ (count : Int) ≤ job.limits.functionArgs := by
  rw [Job.checkCount]
  cases h : job.limits.exceeded? .functionArgs count (some owner.pos) with
  | none => simpa [Limits.bound] using Limits.exceeded?_eq_none_iff.1 h
  | some e =>
    have hlt : ¬ (count : Int) ≤ job.limits.bound .functionArgs := fun hle => by
      rw [Limits.exceeded?_eq_none_iff.2 hle] at h
      cases h
    simpa [Limits.bound] using hlt

theorem checkCounts_succ (owner : Token) (n : Nat) : job.checkCounts owner (n + 1)
    = (job.checkCounts owner n).bind fun _ => job.checkCount owner (n + 1) := by
  rw [Job.checkCounts, List.range_succ, List.foldl_append]
  rfl

/-- Counting up to a number is possible exactly if that number is. -/
theorem checkCounts_ok {owner : Token} {count : Nat} {u : Unit} :
    (job.checkCounts owner count).eager now = .ok u ↔ Admits job.limits.functionArgs count := by
  induction count with
  | zero => simp [Job.checkCounts, Admits]
  | succ n ih =>
    rw [checkCounts_succ, eager_bind_ok]
    constructor
    · rintro ⟨_, -, h⟩
      exact .inr (checkCount_ok.1 h)
    · rintro (hzero | h)
      · cases hzero
      · exact ⟨(), ih.2 (.inr (by omega)), checkCount_ok.2 h⟩

theorem attach_eager {owner : Token} {args : List (List Token)} :
    (s.attach place owner args).eager now
      = .ok { s with attached := (owner.handle, args) :: s.attached } := rfl

/-! ## Tokens in their places -/

/-- The tokens of a list in their places, given the tokens before and after them. -/
def placesIn : Option Token → Nat → List Token → Option Token → List Place
  | _, _, [], _ => []
  | before, index, token :: rest, after =>
    ⟨token, index, before, rest.head?.or after⟩ :: placesIn (some token) (index + 1) rest after

theorem placesFrom_eq (before : Option Token) (index : Nat) (tokens : List Token) :
    placesFrom before index tokens = placesIn before index tokens none := by
  induction tokens generalizing before index with
  | nil => rfl
  | cons t rest ih => simp [placesFrom, placesIn, ih]

theorem map_token_placesIn (before after : Option Token) (i : Nat) (tokens : List Token) :
    (placesIn before i tokens after).map Place.token = tokens := by
  induction tokens generalizing before i with
  | nil => rfl
  | cons t rest ih => rw [placesIn, List.map_cons, ih]

theorem mem_of_mem_places {tokens : List Token} (h : place ∈ places tokens) :
    place.token ∈ tokens := by
  rw [places, placesFrom_eq] at h
  rw [← map_token_placesIn none none 0 tokens]
  exact List.mem_map_of_mem h

/-- What stands before a token is a token of the list, too. -/
theorem before_mem_of_mem_places {tokens : List Token} (h : place ∈ places tokens) :
    ∀ t ∈ place.before, t ∈ tokens := by
  have hfrom (before : Option Token) (index : Nat) (tokens : List Token) :
      ∀ place ∈ placesFrom before index tokens, ∀ t ∈ place.before,
        before = some t ∨ t ∈ tokens := by
    induction tokens generalizing before index with
    | nil =>
      intro place hplace
      cases hplace
    | cons u rest ih =>
      intro place hplace t ht
      rcases List.mem_cons.1 hplace with rfl | hplace
      · exact .inl ht
      · rcases ih _ _ place hplace t ht with heq | hmem
        · exact .inr (Option.some.inj heq ▸ List.mem_cons_self)
        · exact .inr (List.mem_cons_of_mem u hmem)
  exact fun t ht => (hfrom none 0 tokens place h t ht).resolve_left (Option.some_ne_none t).symm

theorem placesIn_append (before after : Option Token) (index : Nat) (xs ys : List Token) :
    placesIn before index (xs ++ ys) after
      = placesIn before index xs (ys.head?.or after)
          ++ placesIn (xs.getLast?.or before) (index + xs.length) ys after := by
  induction xs generalizing before index with
  | nil => rfl
  | cons x xs ih =>
    have hlast : (x :: xs).getLast?.or before = xs.getLast?.or (some x) := by
      cases xs <;> simp [List.getLast?_cons]
    rw [List.cons_append, placesIn, ih, placesIn, hlast, List.head?_append, Option.or_assoc,
      List.cons_append, List.length_cons, Nat.add_right_comm, Nat.add_assoc]

/-! ## Scans -/

/-- Scanning some places leads from one state to another. -/
def Scans (job : Job) (now : Surroundings) (s : State) (places : List Place) (s' : State) : Prop :=
  (job.scan places s).eager now = .ok s'

@[simp] theorem scans_nil : Scans job now s [] s' ↔ s' = s := by
  simp [Scans, Job.scan, eq_comm]

theorem scans_cons {rest : List Place} :
    Scans job now s (place :: rest) s' ↔
      ∃ t, (job.visit s place).eager now = .ok t ∧ Scans job now t rest s' := by
  simp [Scans, Job.scan, Stepwise.bind_eq, eager_bind_ok]

theorem scans_append {xs ys : List Place} :
    Scans job now s (xs ++ ys) s' ↔ ∃ t, Scans job now s xs t ∧ Scans job now t ys s' := by
  induction xs generalizing s with
  | nil => simp
  | cons x xs ih =>
    simp only [List.cons_append, scans_cons, ih]
    constructor
    · rintro ⟨t, ht, u, hu, h⟩
      exact ⟨u, ⟨t, ht, hu⟩, h⟩
    · rintro ⟨u, ⟨t, ht, hu⟩, h⟩
      exact ⟨t, ht, u, hu, h⟩

theorem scans_concat {xs : List Place} :
    Scans job now s (xs ++ [place]) s' ↔
      ∃ t, Scans job now s xs t ∧ (job.visit t place).eager now = .ok s' := by
  simp [scans_append, scans_cons, eq_comm]

/-! ## Open groups -/

/-- What is completed is off the output, and its arguments are written down. -/
theorem closeCall_taken {owner : Token} {group : Group}
    (h : (job.closeCall s place owner group).eager now = .ok s') :
    ∃ attached, s' = { (job.takeArgument s group).2 with attached } := by
  rw [Job.closeCall] at h
  simp only at h
  split at h
  · split at h
    · simp only [attach_eager, Except.ok.injEq] at h
      exact ⟨_, h.symm⟩
    · simp at h
  · simp only [Stepwise.bind_eq, eager_bind_ok, attach_eager, Except.ok.injEq] at h
    obtain ⟨-, -, h⟩ := h
    exact ⟨_, h.symm⟩

/-- Completing a call touches neither the stack nor what is open. -/
theorem closeCall_frame {owner : Token} {group : Group}
    (h : (job.closeCall s place owner group).eager now = .ok s') :
    ∃ output attached, s' = { s with output, attached } := by
  obtain ⟨attached, rfl⟩ := closeCall_taken h
  exact ⟨_, attached, rfl⟩

theorem endArgument_taken {owner : Token} {group : Group} {around : List Group}
    (h : (job.endArgument s place group around owner).eager now = .ok s') :
    ∃ output operators args,
      (job.popUntil place .openBracket .unmatchedSeparator s.operators s.output).eager now
        = .ok (output, operators) ∧
      s' = { (job.takeArgument { s with output, operators } group).2 with
        groups := { group with args } :: around } := by
  simp only [Job.endArgument, Stepwise.bind_eq, eager_bind_ok] at h
  obtain ⟨⟨output, operators⟩, hpop, h⟩ := h
  split at h
  · simp at h
  · simp only [eager_bind_ok, Stepwise.pure_eq, Stepwise.eager_answer, Except.ok.injEq] at h
    obtain ⟨-, -, h⟩ := h
    exact ⟨output, operators, _, hpop, h.symm⟩

theorem endArgument_groups {owner : Token} {group : Group} {around : List Group}
    (h : (job.endArgument s place group around owner).eager now = .ok s') :
    s'.groups.length = around.length + 1 := by
  obtain ⟨-, -, _, -, rfl⟩ := endArgument_taken h
  rfl

theorem collectArguments_taken {group : Group}
    (h : (job.collectArguments s place group).eager now = .ok s') :
    ∃ attached, s' = { (job.takeArgument s group).2 with attached } := by
  rw [Job.collectArguments] at h
  simp only at h
  split at h
  · simp at h
  · simp only [Stepwise.bind_eq, eager_bind_ok, attach_eager, Except.ok.injEq] at h
    obtain ⟨-, -, h⟩ := h
    exact ⟨_, h.symm⟩

theorem collectArguments_frame {group : Group}
    (h : (job.collectArguments s place group).eager now = .ok s') :
    ∃ output attached, s' = { s with output, attached } := by
  obtain ⟨attached, rfl⟩ := collectArguments_taken h
  exact ⟨_, attached, rfl⟩

theorem endSegment_taken {group : Group} {around : List Group}
    (h : (job.endSegment s place group around).eager now = .ok s') :
    ∃ output operators args separator,
      (job.popUntil place .closeBracket .unmatchedSeparator s.operators s.output).eager now
        = .ok (output, operators) ∧
      s' = { (job.takeArgument { s with output, operators } group).2 with
        groups := { group with args, separator } :: around } := by
  simp only [Job.endSegment, Stepwise.bind_eq, eager_bind_ok] at h
  obtain ⟨⟨output, operators⟩, hpop, h⟩ := h
  split at h
  · simp at h
  · simp only [Stepwise.pure_eq, Stepwise.eager_answer, Except.ok.injEq] at h
    exact ⟨output, operators, _, _, hpop, h.symm⟩

theorem endSegment_groups {group : Group} {around : List Group}
    (h : (job.endSegment s place group around).eager now = .ok s') :
    s'.groups.length = around.length + 1 := by
  obtain ⟨-, -, _, _, -, rfl⟩ := endSegment_taken h
  rfl

/-- From the right, the innermost group is closed and may wait for the name of its call. -/
theorem completeGroup_closed (h : (job.completeGroup s place).eager now = .ok s') :
    ∃ group t pending, (job.closeGroup s place .closeBracket .unmatchedOpen).eager now
      = .ok (group, t) ∧ s' = { t with pending } := by
  simp only [Job.completeGroup, Stepwise.bind_eq, eager_bind_ok] at h
  obtain ⟨⟨group, t⟩, hclose, h⟩ := h
  split at h
  · simp only [Stepwise.pure_eq, Stepwise.eager_answer, Except.ok.injEq] at h
    exact ⟨group, t, _, hclose, h.symm⟩
  · split at h
    · simp at h
    · simp only [eager_bind_ok, Stepwise.pure_eq, Stepwise.eager_answer, Except.ok.injEq] at h
      obtain ⟨-, -, h⟩ := h
      exact ⟨group, t, _, hclose, h.symm⟩

theorem completeGroup_groups (h : (job.completeGroup s place).eager now = .ok s') :
    s.groups.length = s'.groups.length + 1 := by
  obtain ⟨group, t, pending, hclose, rfl⟩ := completeGroup_closed h
  rw [closeGroup_groups hclose, List.length_cons]

theorem visitForward_depth (h : (job.visitForward s place).eager now = .ok s') :
    (s'.groups.length : Int) = s.groups.length + place.token.kind.weight := by
  rw [Job.visitForward] at h
  cases hk : place.token.kind <;> simp only [hk, Kind.weight] at h ⊢
  case number | constant =>
    simp only [report_eager, Except.ok.injEq] at h
    exact h ▸ by simp [State.putOut]
  case call =>
    simp only [Stepwise.bind_eq, eager_bind_ok, report_eager, Except.ok.injEq] at h
    obtain ⟨_, rfl, h⟩ := h
    split at h
    · simp only [Stepwise.pure_eq, Stepwise.eager_answer, Except.ok.injEq] at h
      exact h ▸ by simp [State.putOut]
    · simp at h
  case operator =>
    obtain ⟨operator, -, rfl⟩ := pushOperator_ok.1 h
    simp
  case openBracket =>
    simp only [State.openGroup, report_eager, Except.ok.injEq] at h
    exact h ▸ by simp
  case closeBracket =>
    -- Closing a group takes one frame off; what is done with its arguments takes none.
    simp only [Stepwise.bind_eq, eager_bind_ok] at h
    obtain ⟨⟨group, t⟩, hclose, h⟩ := h
    have ht : s'.groups = t.groups := by
      split at h
      · simp only [eager_bind_ok, Stepwise.pure_eq, Stepwise.eager_answer, Except.ok.injEq] at h
        obtain ⟨-, -, rfl⟩ := h
        rfl
      · obtain ⟨_, _, rfl⟩ := closeCall_frame h
        rfl
    rw [closeGroup_groups hclose, ht, List.length_cons]
    omega
  case separator =>
    split at h
    · simp at h
    · next group around hg =>
      split at h
      · simp at h
      · rw [endArgument_groups h, hg, List.length_cons]
        omega
  case other => simp at h

theorem visitBackward_depth (h : (job.visitBackward s place).eager now = .ok s') :
    (s'.groups.length : Int) = s.groups.length - place.token.kind.weight := by
  rw [Job.visitBackward] at h
  cases hk : place.token.kind <;> simp only [hk, Kind.weight] at h ⊢
  case number | constant =>
    simp only [report_eager, Except.ok.injEq] at h
    exact h ▸ by simp [State.putOut]
  case call =>
    split at h
    · simp at h
    · simp only [Stepwise.bind_eq, eager_bind_ok, report_eager, Except.ok.injEq] at h
      obtain ⟨t, ht, h⟩ := h
      obtain ⟨_, _, rfl⟩ := collectArguments_frame ht
      rw [← h]
      simp [State.putOut]
  case operator =>
    obtain ⟨operator, -, rfl⟩ := pushOperator_ok.1 h
    simp
  case closeBracket =>
    simp only [State.openGroup, report_eager, Except.ok.injEq] at h
    exact h ▸ by simp
  case openBracket =>
    rw [completeGroup_groups h]
    omega
  case separator =>
    split at h
    · simp at h
    · next group around hg =>
      rw [endSegment_groups h, hg, List.length_cons]
      omega
  case other => simp at h

/-- From the left, the number of open groups is the number of brackets left open. -/
theorem Scans.depth_forward (hm : job.mode = .rpn) {before after : Option Token} {index : Nat}
    {ts : List Token} (h : Scans job now s (placesIn before index ts after) s') :
    (s'.groups.length : Int) = s.groups.length + excess ts := by
  induction ts generalizing before index s with
  | nil => rw [scans_nil.1 h]; simp
  | cons t ts ih =>
    obtain ⟨u, hu, h⟩ := scans_cons.1 h
    rw [Job.visit, hm] at hu
    have hd := visitForward_depth hu
    rw [ih h, excess_cons]
    simp only at hd
    omega

/-- From the right, it is the number of brackets closed too much. -/
theorem Scans.depth_backward (hm : job.mode = .pn) {before after : Option Token} {index : Nat}
    {ts : List Token} (h : Scans job now s (placesIn before index ts after).reverse s') :
    (s'.groups.length : Int) = s.groups.length - excess ts := by
  induction ts generalizing before index s' with
  | nil => rw [scans_nil.1 h]; simp
  | cons t ts ih =>
    rw [placesIn, List.reverse_cons] at h
    obtain ⟨u, h, hu⟩ := scans_concat.1 h
    rw [Job.visit, hm] at hu
    have hd := visitBackward_depth hu
    rw [ih h] at hd
    rw [excess_cons]
    simp only at hd
    omega

end Compile

end Polish
