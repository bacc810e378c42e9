import Polish.Proofs.Compile.Forward

/-!
# The scan from the right

`Phrase.scans_backward` — scanned from the right, a phrase becomes the run of its pieces, the last
one first, exactly if it is sound.

A group is scanned before it is known what it belongs to.  Separators are taken as ends of arguments
in any group, and only the opening bracket and what is before it tell whether they may be there:
`Phrases.mark` is the separator that the group remembers for that.

## How the proof goes

As in the scan from the left, the statement is about any yard that the phrase is scanned on and any
state below it, and the two inductions, over a phrase and over the arguments of a call, use each
other.  What is different is what has to be carried along.  The last argument is scanned first and
taken off the output by the separator before it, and the first one is taken off only when the name
of the call is found.  So the induction over the arguments is about all of them but the first
(`Phrases.tail`), and the state that it ends in is one that waits for the name.

A group that turns out to belong to nothing must not have any separator in it.  That is only noticed
at its opening bracket, and then the separator that is blamed is the one that was scanned last,
which is the first one in the source.  Hence `Phrases.mark`.
-/

set_option autoImplicit false

namespace Polish

open Compile
open Stepwise (eager_bind_ok eager_bind_of_ok)

/-! ## All phrases but the first -/

namespace Phrases

/-- The first separator with its number, given the number of the first token. -/
def mark (i : Nat) : Phrases → Option (Token × Nat)
  | last _ => none
  | more phrase separator _ => some (separator, i + phrase.tokens.length)

theorem Sound.head {operators : Table Operator} {limit : Int} {ps : Phrases}
    (h : ps.Sound operators limit) : ps.head.Sound operators limit := by
  cases ps with
  | last p => exact h
  | more p s rest => exact h.1

/-- The arguments of a call, from what is complete at its beginning. -/
theorem arguments_eq_tail {ps : Phrases} (h : ps.head = .nil → ps.tail = []) :
    ps.arguments = ps.head.asArgument ++ ps.tail := by
  cases ps with
  | last p => cases p <;> rfl
  | more p s rest =>
    have hne : (more p s rest).head ≠ .nil := fun hnil => by simpa [tail] using h hnil
    rw [arguments_of_ne (show more p s rest ≠ last .nil by simp), Phrase.asArgument_of_ne hne]
    rfl

/-- What the scan finds out about the arguments of a call is that they are neither empty nor too
many. -/
theorem head_tail_iff {ps : Phrases} {limit : Int} :
    ((∀ p ∈ ps.tail, p ≠ .nil) ∧ (ps.head = .nil → ps.tail = []) ∧
        Admits limit (ps.head.asArgument.length + ps.tail.length)) ↔
      (∀ p ∈ ps.arguments, p ≠ .nil) ∧ Admits limit ps.arguments.length := by
  constructor
  · rintro ⟨hne, hfirst, hcount⟩
    rw [arguments_eq_tail hfirst, List.length_append]
    refine ⟨fun p hp => ?_, hcount⟩
    rcases List.mem_append.1 hp with hp | hp
    · cases hf : ps.head <;> simp [hf, Phrase.asArgument] at hp <;> simp [hp]
    · exact hne p hp
  · rintro ⟨hne, hcount⟩
    have hfirst : ps.head = .nil → ps.tail = [] := by
      intro hnil
      cases ps with
      | last p => rfl
      | more p s rest => exact absurd hnil (hne _ List.mem_cons_self)
    rw [arguments_eq_tail hfirst] at hne hcount
    rw [List.length_append] at hcount
    exact ⟨fun p hp => hne p (List.mem_append_right _ hp), hfirst, hcount⟩

/-- From what is complete when the name of a call comes and what comes out of the first argument,
the scan gets the arguments of the call. -/
theorem Sound.collect {operators : Table Operator} {limit limit' : Int} {ps : Phrases}
    {out : List Token} {args : List (List Token)} (h : ps.Sound operators limit)
    (hout : out = (Yard.empty.run .pn operators (ps.head.pieces .pn operators).reverse).flushed)
    (hargs : args = ps.tail.map (Phrase.listing .pn operators)) :
    (((∀ p ∈ ps.tail, p ≠ .nil) ∧ (out = [] → args = []) ∧
        Admits limit' (Compile.lastArgument .pn out ++ args).length) ↔
      (∀ p ∈ ps.arguments, p ≠ .nil) ∧ Admits limit' ps.arguments.length) ∧
    ((out = [] → args = []) → Compile.lastArgument .pn out ++ args
      = ps.arguments.map (Phrase.listing .pn operators)) := by
  have hlast : Compile.lastArgument .pn out
      = ps.head.asArgument.map (Phrase.listing .pn operators) := by
    rw [hout]
    exact h.head.lastArgument
  have hnil : out = [] ↔ ps.head = .nil := by
    rw [hout]
    exact h.head.flushed_eq_nil_iff (m := .pn)
  have hinit : args = [] ↔ ps.tail = [] := by simp [hargs]
  rw [hnil, hinit, hlast, ← ps.head_tail_iff]
  refine ⟨by simp [hargs], fun hne => ?_⟩
  rw [arguments_eq_tail hne, hargs, List.map_append]

end Phrases

/-! ## Brackets from the right -/

namespace Compile

variable {job : Job} {now : Surroundings} {u : Token} {i : Nat} {before after : Option Token}
variable {s t : State} {y z : Yard}
variable {e e' : List (Nat × List (List Token))} {c : Token} {g : Group}

/-- A bracket from the right: what comes after it, the closing bracket, what is inside, the opening
bracket. -/
theorem scans_bracket_reverse {o c : Token} {xs ys : List Token} :
    Scans job now s (placesIn before i (o :: (xs ++ c :: ys)) after).reverse t ↔
      ∃ v, Scans job now s (placesIn (some c) (i + 1 + xs.length + 1) ys after).reverse v ∧
        ∃ w, (job.visit v ⟨c, i + 1 + xs.length, xs.getLast?.or (some o),
            ys.head?.or after⟩).eager now = .ok w ∧
          ∃ x, Scans job now w (placesIn (some o) (i + 1) xs (some c)).reverse x ∧
            (job.visit x ⟨o, i, before, some ((xs ++ c :: ys).head?.getD c)⟩).eager now
              = .ok t := by
  rw [placesIn_bracket, List.reverse_cons, scans_concat, List.reverse_append, List.reverse_cons]
  simp only [scans_append, scans_cons, scans_nil]
  constructor
  · rintro ⟨x, ⟨w, ⟨v, hv, _, hw, rfl⟩, hx⟩, ht⟩
    exact ⟨v, hv, _, hw, x, hx, ht⟩
  · rintro ⟨v, hv, w, hw, x, hx, ht⟩
    exact ⟨x, ⟨w, ⟨v, hv, w, hw, rfl⟩, hx⟩, ht⟩

/-- A state in which a group waits for the name of its call. -/
def State.waiting (s : State) (group : Group) : State := { s with pending := some group }

/-- A name cannot be scanned if there is no group that waits for it. -/
theorem visitBackward_call_none (hm : job.mode = .pn) (hk : u.kind = .call)
    (hs : s.pending = none) :
    (job.visit s ⟨u, i, before, after⟩).eager now ≠ .ok t := by
  rw [Job.visit, hm]
  simp [Job.visitBackward, hk, hs]

/-- The name of a call takes the group that waits for it. -/
theorem visitBackward_call {out : List Token} (hm : job.mode = .pn)
    (hk : u.kind = .call) (hs : s.pending = none)
    (hg : g.start = (s.extend y e).output.length) :
    (job.visit ((s.extend ⟨out ++ y.output, y.operators⟩ e').waiting g)
        ⟨u, i, before, after⟩).eager now = .ok t ↔
      ((out = [] → g.args = []) ∧
        Admits job.limits.functionArgs (lastArgument .pn out ++ g.args).length) ∧
      t = s.extend ⟨u :: y.output, y.operators⟩
        (e' ++ [(u.handle, lastArgument .pn out ++ g.args)]) := by
  have hcollect (v : State) : (job.collectArguments
      ((s.waiting g).extend ⟨out ++ y.output, y.operators⟩ e') ⟨u, i, before, after⟩ g).eager now
        = .ok v ↔ _ := collectArguments_ok (e := e) hg
  rw [Job.visit, hm]
  simp only [Job.visitBackward, hk, State.waiting, Stepwise.bind_eq, eager_bind_ok, report_eager,
    ok_eq_ok]
  refine (exists_congr fun v => and_congr_left fun _ => hcollect v).trans ?_
  rw [exists_eq_and, hm]
  simp [State.extend, State.putOut, State.waiting, hs]

theorem visitBackward_close (hm : job.mode = .pn) (hk : u.kind = .closeBracket) :
    (job.visit s ⟨u, i, before, after⟩).eager now = .ok t ↔
      t = s.inside u ⟨u, i, s.output.length, none, [], none⟩ := by
  rw [Job.visit, hm]
  simp only [Job.visitBackward, hk, State.openGroup, report_eager, ok_eq_ok]
  rfl

/-- An opening bracket after the name of a call leaves its group waiting. -/
theorem visitBackward_open_call (hm : job.mode = .pn) (hk : u.kind = .openBracket)
    (hc : c.kind = .closeBracket) (hz : z.Proper) (hb : isKind .call before = true) :
    (job.visit (((s.extend y e).inside c g).extend z e') ⟨u, i, before, after⟩).eager now = .ok t ↔
      t = (s.extend ⟨z.flushed ++ y.output, y.operators⟩ (e ++ e')).waiting
        { g with bracket := u, index := i } := by
  rw [Job.visit, hm]
  simp only [Job.visitBackward, hk, Job.completeGroup, Stepwise.bind_eq]
  rw [eager_bind_of_ok (closeGroup_extend hc (by decide) hz)]
  simp only [hb, if_true, Stepwise.pure_eq, Stepwise.eager_answer, ok_eq_ok]
  rfl

/-- An opening bracket with no name before it completes a group with something inside and no
separators. -/
theorem visitBackward_open (hm : job.mode = .pn) (hk : u.kind = .openBracket)
    (hc : c.kind = .closeBracket) (hz : z.Proper) (hb : isKind .call before = false)
    (hs : s.pending = none) (hg : g.start = (s.extend y e).output.length)
    (operators : Table Operator) :
    (job.visit (((s.extend y e).inside c g).extend z e') ⟨u, i, before, after⟩).eager now = .ok t ↔
      (g.separator = none ∧ z.flushed ≠ []) ∧
        t = s.extend (y.add .pn operators (.operand (Mode.inOrder .pn z.flushed))) (e ++ e') := by
  rw [Job.visit, hm, Yard.add_operand]
  simp only [Job.visitBackward, hk, Job.completeGroup, Stepwise.bind_eq]
  rw [eager_bind_of_ok (closeGroup_extend hc (by decide) hz)]
  simp only [hb, Bool.false_eq_true, if_false]
  cases hsep : g.separator with
  | some mark => simp
  | none =>
    simp only [eager_bind_ok, checkNotEmpty_ok, hg, Stepwise.pure_eq, Stepwise.eager_answer,
      ok_eq_ok]
    simp [State.extend, hs]

/-- A separator ends an argument of any group. -/
theorem visitBackward_separator (hm : job.mode = .pn) (hk : u.kind = .separator)
    (hc : c.kind = .closeBracket) (hz : z.Proper) (hg : g.start = s.output.length) :
    (job.visit ((s.inside c g).extend z e) ⟨u, i, before, after⟩).eager now = .ok t ↔
      z.flushed ≠ [] ∧
        t = (s.inside c { g with
          args := Mode.inOrder .pn z.flushed :: g.args
          separator := some (u, i) }).extend .empty e := by
  have hvisit : job.visit ((s.inside c g).extend z e) ⟨u, i, before, after⟩
      = job.endSegment ((s.inside c g).extend z e) ⟨u, i, before, after⟩ g s.groups := by
    rw [Job.visit, hm]
    simp [Job.visitBackward, hk, State.extend, State.inside]
  rw [hvisit, endSegment_ok hc hz hg, hm]

end Compile

/-! ## Whole phrases from the right -/

/-- From the right, the phrase becomes the run of its pieces, the last one first, exactly if it is
sound. -/
def Phrase.ScansBackward (job : Job) (now : Surroundings) (p : Phrase) : Prop :=
  ∀ (s : State) (y : Yard) (e : List (Nat × List (List Token))) (before after : Option Token)
    (i : Nat) (t : State), s.Resting → y.Proper → s.pending = none →
    (isKind .call before = true → isKind .openBracket p.tokens.head? = false) →
    (Scans job now (s.extend y e) (placesIn before i p.tokens after).reverse t ↔
      p.Sound now.registries.operators job.limits.functionArgs ∧
        t = s.extend
          (y.run .pn now.registries.operators (p.pieces .pn now.registries.operators).reverse)
          (e ++ p.entries .pn now.registries.operators))

/-- From the right, the phrases become the arguments of a call, or what has to turn out as such. -/
def Phrases.ScansBackward (job : Job) (now : Surroundings) (ps : Phrases) : Prop :=
  ∀ (s : State) (c : Token) (g : Compile.Group) (e : List (Nat × List (List Token)))
    (before after : Option Token) (i : Nat) (t : State), c.kind = .closeBracket →
    g.start = s.output.length → s.pending = none → isKind .call before = false →
    (Scans job now ((s.inside c g).extend .empty e) (placesIn before i ps.tokens after).reverse
        t ↔
      (ps.Sound now.registries.operators job.limits.functionArgs ∧ ∀ p ∈ ps.tail, p ≠ .nil) ∧
        t = (s.inside c { g with
            args := ps.tail.map (Phrase.listing .pn now.registries.operators) ++ g.args
            separator := (ps.mark i).or g.separator }).extend
          (Yard.empty.run .pn now.registries.operators
            (ps.head.pieces .pn now.registries.operators).reverse)
          (e ++ ps.entries .pn now.registries.operators))

section

variable {job : Job} {now : Surroundings}

theorem Phrase.ScansBackward.nil : Phrase.nil.ScansBackward job now := by
  intro s y e before after i t _ _ _ _
  simp [Phrase.tokens, placesIn, Phrase.Sound, Phrase.pieces, Phrase.entries, Yard.run]

theorem Phrase.ScansBackward.plain (hm : job.mode = .pn) {u : Token} {rest : Phrase}
    (hmatched : (Phrase.plain u rest).Matched) (hrest : rest.ScansBackward job now) :
    (Phrase.plain u rest).ScansBackward job now := by
  obtain ⟨hw, hsep, hcall, hr⟩ := hmatched
  intro s y e before after i t hs hy hn _
  have hrest (v : State) := hrest s y e (some u) after (i + 1) v hs hy hn
    fun hk => hcall (by simpa [isKind] using hk)
  rw [Phrase.tokens, placesIn, List.reverse_cons, scans_concat]
  simp only [hrest, exists_eq_and]
  by_cases hk : u.kind = .call
  · -- The name of a call with no group that waits for it: neither side holds.
    constructor
    · rintro ⟨-, hv⟩
      exact absurd hv (visitBackward_call_none hm hk hn)
    · rintro ⟨⟨hu, -⟩, -⟩
      simp [hk, Kind.isValue] at hu
  · rw [visit_plain hs hw hsep hk, hm, and_left_comm, ← and_assoc]
    simp [Phrase.Sound, Phrase.pieces, Phrase.entries]

/-- Where there is no name before the bracket, the mark of what is inside tells whether there is a
separator that should not be there. -/
theorem Phrase.ScansBackward.group (hm : job.mode = .pn) {o c : Token} {inner : Phrases}
    {rest : Phrase} (ho : o.kind = .openBracket) (hc : c.kind = .closeBracket)
    (hi : inner.ScansBackward job now) (hrest : rest.ScansBackward job now) :
    (Phrase.bracket none o inner c rest).ScansBackward job now := by
  intro s y e before after i t hs hy hn hb
  have hbefore := Phrase.not_call_before ho hb
  have hrest (v : State) := hrest s y e (some c) after
    (i + 1 + inner.tokens.length + 1) v hs hy hn (by simp [isKind, hc])
  rw [Phrase.tokens, Option.toList, List.nil_append, scans_bracket_reverse]
  simp only [hrest, exists_eq_and, visitBackward_close hm hc, exists_eq_left]
  -- What follows the group has been scanned; the group is scanned on top of that.
  generalize hyr : y.run .pn _ (rest.pieces .pn _).reverse = yr
  generalize her : e ++ rest.entries .pn _ = er
  generalize hg : Compile.Group.mk c _ _ none [] none = g
  have hstart : g.start = (s.extend yr er).output.length := by rw [← hg]
  have hsep : g.separator = none := by rw [← hg]
  have hinner (v : State) := hi (s.extend yr er) c g []
    (some o) (some c) (i + 1) v hc hstart hn (by simp [isKind, ho])
  rw [State.extend_empty] at hinner
  have hz : (Yard.empty.run .pn now.registries.operators
      (inner.head.pieces .pn now.registries.operators).reverse).Proper :=
    Phrase.run_proper .pn _ _
  simp only [hinner, exists_eq_and, List.nil_append]
  generalize hg' : Compile.Group.mk _ _ g.start _ _ _ = g'
  have hstart' : g'.start = (s.extend yr er).output.length := by rw [← hg', ← hstart]
  have hsep' : g'.separator = inner.mark (i + 1) := by simp [← hg', hsep]
  rw [visitBackward_open hm ho hc hz hbefore hn hstart' now.registries.operators, hsep']
  subst hyr her
  cases inner with
  | last q =>
    constructor
    · rintro ⟨hsr, ⟨hsq, -⟩, ⟨-, hne⟩, rfl⟩
      refine ⟨⟨⟨q, rfl, fun hnil => hne (hsq.flushed_eq_nil_iff.2 hnil)⟩, hsq, hsr⟩, ?_⟩
      simp [Phrase.entries, Phrases.entries, Mode.join, Phrase.pieces]
      rfl
    · rintro ⟨⟨⟨p, hp, hne⟩, hsq, hsr⟩, rfl⟩
      obtain rfl := Phrases.last.inj hp
      refine ⟨hsr, ⟨hsq, by simp [Phrases.tail]⟩,
        ⟨rfl, fun hnil => hne (hsq.flushed_eq_nil_iff.1 hnil)⟩, ?_⟩
      simp [Phrase.entries, Phrases.entries, Mode.join, Phrase.pieces]
      rfl
  | more p sep ps =>
    constructor
    · rintro ⟨-, -, ⟨hmark, -⟩, -⟩
      cases hmark
    · rintro ⟨⟨⟨p, hp, -⟩, -⟩, -⟩
      cases hp

theorem Phrase.ScansBackward.call (hm : job.mode = .pn) {f o c : Token} {inner : Phrases}
    {rest : Phrase} (hf : f.kind = .call) (ho : o.kind = .openBracket)
    (hc : c.kind = .closeBracket) (hi : inner.ScansBackward job now)
    (hrest : rest.ScansBackward job now) :
    (Phrase.bracket (some f) o inner c rest).ScansBackward job now := by
  intro s y e before after i t hs hy hn _
  have hrest (v : State) := hrest s y e (some c) after
    (i + 1 + 1 + inner.tokens.length + 1) v hs hy hn (by simp [isKind, hc])
  rw [Phrase.tokens, Option.toList, List.cons_append, List.nil_append, placesIn,
    List.reverse_cons, scans_concat]
  simp only [scans_bracket_reverse, hrest, exists_eq_and, visitBackward_close hm hc,
    exists_eq_left]
  generalize hyr : y.run .pn _ (rest.pieces .pn _).reverse = yr
  generalize her : e ++ rest.entries .pn _ = er
  generalize hg : Compile.Group.mk c _ _ none [] none = g
  have hstart : g.start = (s.extend yr er).output.length := by rw [← hg]
  have hargs : g.args = [] := by rw [← hg]
  have hinner (v : State) := hi (s.extend yr er) c g []
    (some o) (some c) (i + 1 + 1) v hc hstart hn (by simp [isKind, ho])
  rw [State.extend_empty] at hinner
  have hz : (Yard.empty.run .pn now.registries.operators
      (inner.head.pieces .pn now.registries.operators).reverse).Proper :=
    Phrase.run_proper .pn _ _
  have hcall : isKind .call (some f) = true := by simp [isKind, hf]
  simp only [hinner, exists_eq_and, List.nil_append, visitBackward_open_call hm ho hc hz hcall]
  simp only [← and_assoc, exists_eq_and]
  generalize hg' : Compile.Group.mk o _ _ _ _ _ = g'
  have hstart' : g'.start = (s.extend yr er).output.length := by rw [← hg', ← hstart]
  have hargs' : g'.args = inner.tail.map (Phrase.listing .pn now.registries.operators) := by
    simp [← hg', hargs]
  -- The bracket leaves the arguments in a pending frame, and the name collects them.
  rw [visitBackward_call hm hf hn hstart']
  subst hyr her
  constructor
  · rintro ⟨⟨⟨hsr, hsi⟩, htail⟩, hfirst, rfl⟩
    obtain ⟨hiff, heq⟩ := hsi.collect rfl hargs'
    rw [heq hfirst.1]
    refine ⟨⟨hiff.1 ⟨htail, hfirst⟩, hsi, hsr⟩, ?_⟩
    simp [Phrase.entries, Mode.join, Phrase.pieces]
    rfl
  · rintro ⟨⟨hok, hsi, hsr⟩, rfl⟩
    obtain ⟨hiff, heq⟩ := hsi.collect rfl hargs'
    obtain ⟨htail, hfirst⟩ := hiff.2 hok
    refine ⟨⟨⟨hsr, hsi⟩, htail⟩, hfirst, ?_⟩
    rw [heq hfirst.1]
    simp [Phrase.entries, Mode.join, Phrase.pieces]
    rfl

theorem Phrases.ScansBackward.last {p : Phrase} (hp : p.ScansBackward job now) :
    (Phrases.last p).ScansBackward job now := by
  intro s c g e before after i t hc hg hn hb
  have h := hp (s.inside c g) .empty e before after i t
    (State.resting_inside (by simp [hc])) Yard.proper_empty hn (by simp [hb])
  rw [Phrases.tokens, h]
  simp [Phrases.Sound, Phrases.head, Phrases.tail, Phrases.entries, Phrases.mark]

theorem Phrases.ScansBackward.more (hm : job.mode = .pn) {p : Phrase} {sep : Token}
    {rest : Phrases} (hsep : sep.kind = .separator) (hp : p.ScansBackward job now)
    (hr : rest.ScansBackward job now) : (Phrases.more p sep rest).ScansBackward job now := by
  intro s c g e before after i t hc hg hn hb
  have hrest (v : State) := hr s c g e (some sep) after
    (i + p.tokens.length + 1) v hc hg hn (by simp [isKind, hsep])
  have hz : (Yard.empty.run .pn now.registries.operators
      (rest.head.pieces .pn now.registries.operators).reverse).Proper :=
    Phrase.run_proper .pn _ _
  simp only [Phrases.tokens, placesIn_append, placesIn, List.reverse_append, List.reverse_cons,
    List.append_assoc, scans_append, scans_cons, scans_nil, hrest, exists_eq_and]
  generalize hg' : Compile.Group.mk _ _ g.start _ _ _ = g'
  have hstart' : g'.start = s.output.length := by rw [← hg', ← hg]
  simp only [visitBackward_separator hm hsep hc hz hstart', exists_eq_and]
  subst hg'
  refine (and_congr_right fun _ => and_congr_right fun _ => hp _ _ _
    before _ i t (State.resting_inside (by simp [hc])) Yard.proper_empty hn
    (by simp [hb])).trans ?_
  constructor
  · rintro ⟨⟨hsr, htail⟩, hne, hsp, rfl⟩
    refine ⟨⟨⟨hsp, hsr⟩, ?_⟩, ?_⟩
    · rintro q (_ | ⟨_, hq⟩)
      · exact fun hnil => hne (hsr.head.flushed_eq_nil_iff.2 hnil)
      · exact htail q hq
    · simp [Phrases.head, Phrases.tail, Phrases.entries, Phrases.mark, Mode.join]
      rfl
  · rintro ⟨⟨⟨hsp, hsr⟩, htail⟩, rfl⟩
    refine ⟨⟨hsr, fun q hq => htail q (List.mem_cons_of_mem _ hq)⟩, fun hnil => ?_, hsp, ?_⟩
    · exact htail _ List.mem_cons_self (hsr.head.flushed_eq_nil_iff.1 hnil)
    · simp [Phrases.head, Phrases.tail, Phrases.entries, Phrases.mark, Mode.join]
      rfl

mutual

/-- **From the right, a phrase becomes the run of its pieces, the last one first, exactly if it is
sound.** -/
theorem Phrase.scans_backward (hm : job.mode = .pn) :
    (p : Phrase) → p.Matched → p.ScansBackward job now
  | .nil, _ => .nil
  | .plain _ rest, h => .plain hm h (rest.scans_backward hm h.2.2.2)
  | .bracket none _ inner _ rest, ⟨_, ho, hi, hc, hr⟩ =>
    .group hm ho hc (inner.scans_backward hm hi) (rest.scans_backward hm hr)
  | .bracket (some f) _ inner _ rest, ⟨hf, ho, hi, hc, hr⟩ =>
    .call hm (hf f rfl) ho hc (inner.scans_backward hm hi) (rest.scans_backward hm hr)

/-- The same of the arguments of a call. -/
theorem Phrases.scans_backward (hm : job.mode = .pn) :
    (ps : Phrases) → ps.Matched → ps.ScansBackward job now
  | .last p, hp => .last (p.scans_backward hm hp)
  | .more p _ rest, ⟨hp, hsep, hr⟩ =>
    .more hm hsep (p.scans_backward hm hp) (rest.scans_backward hm hr)

end

end

end Polish
