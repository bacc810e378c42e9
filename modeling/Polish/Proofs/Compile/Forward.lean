import Polish.Proofs.Compile.Visit

/-!
# The scan from the left

`Phrase.scans_forward` — scanned from the left, a phrase becomes the run of its pieces exactly if it
is sound, and otherwise the scan stops.  The statement is about any yard that the phrase is scanned
on and any state below it, and the proof follows the shape of the phrase.

Inside the bracket of a call, all arguments but the last are complete when the closing bracket
comes.  `Phrases.initial` and `Phrases.final` divide them in this way.

## How the proof goes

Two statements are proved together by induction on the shape of the tokens, one about phrases and
one about the arguments of a call.  Both are about a scan that starts anywhere: on a yard with
whatever is on it already, above groups that are left alone.  Were they about an empty state, the
induction hypothesis could not be used behind the first token.

They are equivalences.  That a scan over an unsound phrase stops is needed as much as what it does
with a sound one, and saying both in one statement keeps the case analysis of the visits to one.
`exists_eq_and` is the pattern of all these steps: possible under a condition, and then to one
state.
-/

set_option autoImplicit false

namespace Polish

open Compile
open Stepwise (eager_bind_ok eager_bind_of_ok)

/-! ## All phrases but the last -/

namespace Phrases

/-- The phrases before the last one. -/
def initial : Phrases → List Phrase
  | last _ => []
  | more phrase _ rest => phrase :: rest.initial

/-- The last phrase. -/
def final : Phrases → Phrase
  | last phrase => phrase
  | more _ _ rest => rest.final

theorem head_cons_tail (ps : Phrases) : ps.head :: ps.tail = ps.initial ++ [ps.final] := by
  match ps with
  | last p => rfl
  | more p s rest => exact congrArg (p :: ·) rest.head_cons_tail

theorem Sound.final {operators : Table Operator} {limit : Int} :
    (ps : Phrases) → ps.Sound operators limit → ps.final.Sound operators limit
  | last _, h => h
  | more _ _ rest, h => Sound.final rest h.2

/-- The arguments of a call, from what is complete at its end. -/
theorem arguments_eq_initial {ps : Phrases} (h : ps.final = .nil → ps.initial = []) :
    ps.arguments = ps.initial ++ ps.final.asArgument := by
  match ps with
  | last p => cases p <;> rfl
  | more p s rest =>
    have hne : (more p s rest).final ≠ .nil := fun hnil => by simpa [initial] using h hnil
    rw [arguments_of_ne (show more p s rest ≠ last .nil by simp), head_cons_tail,
      Phrase.asArgument_of_ne hne]

/-- What the scan finds out about the arguments of a call is that they are neither empty nor too
many. -/
theorem initial_final_iff {ps : Phrases} {limit : Int} :
    (((∀ p ∈ ps.initial, p ≠ .nil) ∧ (ps.initial ≠ [] → (ps.initial.length : Int) ≤ limit)) ∧
        (ps.final = .nil → ps.initial = []) ∧
          Admits limit (ps.final.asArgument.length + ps.initial.length)) ↔
      (∀ p ∈ ps.arguments, p ≠ .nil) ∧ Admits limit ps.arguments.length := by
  constructor
  · rintro ⟨⟨hne, -⟩, hlast, hcount⟩
    rw [arguments_eq_initial hlast, List.length_append, Nat.add_comm]
    refine ⟨fun p hp => ?_, hcount⟩
    rcases List.mem_append.1 hp with hp | hp
    · exact hne p hp
    · cases hf : ps.final <;> simp [hf, Phrase.asArgument] at hp <;> simp [hp]
  · rintro ⟨hne, hcount⟩
    have hlast : ps.final = .nil → ps.initial = [] := by
      intro hnil
      match ps with
      | last p => rfl
      | more p s rest =>
        refine absurd hnil (hne _ ?_)
        rw [arguments_of_ne (show more p s rest ≠ last .nil by simp), head_cons_tail]
        exact List.mem_append_right _ List.mem_cons_self
    rw [arguments_eq_initial hlast] at hne hcount
    rw [List.length_append, Nat.add_comm] at hcount
    refine ⟨⟨fun p hp => hne p (List.mem_append_left _ hp), fun hne => ?_⟩, hlast, hcount⟩
    have := List.length_pos_iff.2 hne
    rcases hcount with hcount | hcount
    · omega
    · omega

end Phrases

/-- The last argument of a call is what its phrase becomes. -/
theorem Phrase.Sound.lastArgument {m : Mode} {operators : Table Operator} {limit : Int}
    {p : Phrase} (h : p.Sound operators limit) :
    lastArgument m (Yard.empty.run m operators (m.scanOrder (p.pieces m operators))).flushed
      = p.asArgument.map (Phrase.listing m operators) := by
  have hnil := h.flushed_eq_nil_iff (m := m)
  rw [Compile.lastArgument]
  split
  · next hf =>
    rw [hnil.1 hf]
    rfl
  · next hf =>
    rw [Phrase.asArgument_of_ne fun hp => hf (hnil.2 hp)]
    rfl

/-- From what is complete when a call is closed and what comes out of the last argument, the scan
gets the arguments of the call. -/
theorem Phrases.Sound.close {operators : Table Operator} {limit limit' : Int} {ps : Phrases}
    {out : List Token} {args : List (List Token)} (h : ps.Sound operators limit)
    (hout : out = (Yard.empty.run .rpn operators (ps.final.pieces .rpn operators)).flushed)
    (hargs : args = (ps.initial.map (Phrase.listing .rpn operators)).reverse) :
    ((((∀ p ∈ ps.initial, p ≠ .nil) ∧ (ps.initial ≠ [] → (ps.initial.length : Int) ≤ limit')) ∧
        (out = [] → args = []) ∧ Admits limit' (Compile.lastArgument .rpn out ++ args).length) ↔
      (∀ p ∈ ps.arguments, p ≠ .nil) ∧ Admits limit' ps.arguments.length) ∧
    ((out = [] → args = []) → (Compile.lastArgument .rpn out ++ args).reverse
      = ps.arguments.map (Phrase.listing .rpn operators)) := by
  have hfinal := Sound.final ps h
  have hlast : Compile.lastArgument .rpn out
      = ps.final.asArgument.map (Phrase.listing .rpn operators) := by
    rw [hout]
    exact hfinal.lastArgument
  have hnil : out = [] ↔ ps.final = .nil := by
    rw [hout]
    exact hfinal.flushed_eq_nil_iff (m := .rpn)
  have hinit : args = [] ↔ ps.initial = [] := by simp [hargs]
  rw [hnil, hinit, hlast, ← ps.initial_final_iff]
  refine ⟨by simp [hargs], fun hne => ?_⟩
  rw [arguments_eq_initial hne, hargs, List.reverse_append, List.reverse_reverse,
    ← List.map_reverse, Phrase.reverse_asArgument, List.map_append]

/-! ## Brackets from the left -/

namespace Compile

variable {job : Job} {now : Surroundings} {u : Token} {i : Nat} {before after : Option Token}
variable {s t : State} {y z : Yard}
variable {e e' : List (Nat × List (List Token))} {o f : Token} {g : Group}

/-- Where a bracket with its partner is, what is inside and what comes after are in their places
too. -/
theorem placesIn_bracket (before after : Option Token) (i : Nat) (o c : Token)
    (xs ys : List Token) :
    placesIn before i (o :: (xs ++ c :: ys)) after
      = ⟨o, i, before, some ((xs ++ c :: ys).head?.getD c)⟩ ::
        (placesIn (some o) (i + 1) xs (some c) ++
          ⟨c, i + 1 + xs.length, xs.getLast?.or (some o), ys.head?.or after⟩ ::
            placesIn (some c) (i + 1 + xs.length + 1) ys after) := by
  rw [placesIn, placesIn_append, placesIn]
  cases xs <;> rfl

/-- The name of a call goes out if there is a bracket after it. -/
theorem visitForward_call (hm : job.mode = .rpn) (hk : u.kind = .call) :
    (job.visit (s.extend y e) ⟨u, i, before, after⟩).eager now = .ok t ↔
      isKind .openBracket after = true ∧
        t = s.extend ⟨u :: y.output, y.operators⟩ e := by
  rw [Job.visit, hm]
  simp only [Job.visitForward, hk, Stepwise.bind_eq, eager_bind_ok, report_eager, ok_eq_ok,
    exists_eq_left]
  split
  · next h =>
    rw [Stepwise.pure_eq, Stepwise.eager_answer, ok_eq_ok, and_iff_right h]
    rfl
  · next h => simp [h]

theorem visitForward_open (hm : job.mode = .rpn) (hk : u.kind = .openBracket) :
    (job.visit s ⟨u, i, before, after⟩).eager now = .ok t ↔
      t = s.inside u ⟨u, i, s.output.length,
        if isKind .call before then before else none, [], none⟩ := by
  rw [Job.visit, hm]
  simp only [Job.visitForward, hk, State.openGroup, report_eager, ok_eq_ok]
  rfl

theorem visitForward_close (hm : job.mode = .rpn) (hk : u.kind = .closeBracket)
    (ho : o.kind = .openBracket) (hz : z.Proper) (hg : g.start = (s.extend y e).output.length)
    (howner : g.owner = none) (operators : Table Operator) :
    (job.visit (((s.extend y e).inside o g).extend z e') ⟨u, i, before, after⟩).eager now = .ok t ↔
      z.flushed ≠ [] ∧
        t = s.extend (y.add .rpn operators (.operand (Mode.inOrder .rpn z.flushed))) (e ++ e') := by
  rw [Job.visit, hm, Yard.add_operand]
  simp only [Job.visitForward, hk, Stepwise.bind_eq]
  rw [eager_bind_of_ok (closeGroup_extend ho (by decide) hz)]
  simp only [howner, eager_bind_ok, checkNotEmpty_extend hg, Stepwise.pure_eq,
    Stepwise.eager_answer, ok_eq_ok]
  simp

theorem visitForward_close_call (hm : job.mode = .rpn)
    (hk : u.kind = .closeBracket) (ho : o.kind = .openBracket) (hz : z.Proper)
    (hg : g.start = (s.extend y e).output.length) (howner : g.owner = some f) :
    (job.visit (((s.extend y e).inside o g).extend z e') ⟨u, i, before, after⟩).eager now = .ok t ↔
      ((z.flushed = [] → g.args = []) ∧
        Admits job.limits.functionArgs (lastArgument .rpn z.flushed ++ g.args).length) ∧
      t = s.extend y
        (e ++ e' ++ [(f.handle, (lastArgument .rpn z.flushed ++ g.args).reverse)]) := by
  rw [Job.visit, hm]
  simp only [Job.visitForward, hk, Stepwise.bind_eq]
  rw [eager_bind_of_ok (closeGroup_extend ho (by decide) hz)]
  simp only [howner, closeCall_ok hg, hm]

/-- A separator ends an argument if the innermost bracket belongs to a call. -/
theorem visitForward_separator (hm : job.mode = .rpn) (hk : u.kind = .separator)
    (ho : o.kind = .openBracket) (hz : z.Proper) (hg : g.start = s.output.length)
    (howner : g.owner = some f) :
    (job.visit ((s.inside o g).extend z e) ⟨u, i, before, after⟩).eager now = .ok t ↔
      (z.flushed ≠ [] ∧ (g.args.length + 1 : Int) ≤ job.limits.functionArgs) ∧
        t = (s.inside o { g with args := Mode.inOrder .rpn z.flushed :: g.args }).extend .empty
          e := by
  have hvisit : job.visit ((s.inside o g).extend z e) ⟨u, i, before, after⟩
      = job.endArgument ((s.inside o g).extend z e) ⟨u, i, before, after⟩ g s.groups f := by
    rw [Job.visit, hm]
    simp [Job.visitForward, hk, State.extend, State.inside, howner]
  rw [hvisit, endArgument_ok ho hz hg, hm]

theorem visitForward_separator_outside (hm : job.mode = .rpn)
    (hk : u.kind = .separator) (h : ∀ g ∈ s.groups.head?, g.owner = none) :
    (job.visit s ⟨u, i, before, after⟩).eager now ≠ .ok t := by
  rw [Job.visit, hm]
  simp only [Job.visitForward, hk]
  cases hg : s.groups with
  | nil => simp
  | cons g around =>
    have howner : g.owner = none := h g (by simp [hg])
    simp [howner]

end Compile

/-! ## Whole phrases from the left -/

/-- A step that is possible under some condition and leads to one state only. -/
theorem exists_eq_and {α : Type} {P : Prop} {Q : α → Prop} {a : α} :
    (∃ b, (P ∧ b = a) ∧ Q b) ↔ P ∧ Q a := by
  constructor
  · rintro ⟨b, ⟨hp, rfl⟩, hq⟩
    exact ⟨hp, hq⟩
  · rintro ⟨hp, hq⟩
    exact ⟨a, ⟨hp, rfl⟩, hq⟩

/-- From the left, the phrase becomes the run of its pieces exactly if it is sound. -/
def Phrase.ScansForward (job : Job) (now : Surroundings) (p : Phrase) : Prop :=
  ∀ (s : State) (y : Yard) (e : List (Nat × List (List Token))) (before after : Option Token)
    (i : Nat) (t : State), s.Resting → y.Proper → isKind .openBracket after = false →
    (isKind .call before = true → isKind .openBracket p.tokens.head? = false) →
    (Scans job now (s.extend y e) (placesIn before i p.tokens after) t ↔
      p.Sound now.registries.operators job.limits.functionArgs ∧
        t = s.extend
          (y.run .rpn now.registries.operators (p.pieces .rpn now.registries.operators))
          (e ++ p.entries .rpn now.registries.operators))

/-- From the left, the phrases become the arguments of the call that the bracket belongs to. -/
def Phrases.ScansForward (job : Job) (now : Surroundings) (ps : Phrases) : Prop :=
  ∀ (s : State) (o f : Token) (g : Compile.Group) (e : List (Nat × List (List Token)))
    (before after : Option Token) (i : Nat) (t : State), o.kind = .openBracket →
    g.start = s.output.length → g.owner = some f → isKind .openBracket after = false →
    isKind .call before = false →
    (Scans job now ((s.inside o g).extend .empty e) (placesIn before i ps.tokens after) t ↔
      (ps.Sound now.registries.operators job.limits.functionArgs ∧
        (∀ p ∈ ps.initial, p ≠ .nil) ∧
        (ps.initial ≠ [] →
          (ps.initial.length + g.args.length : Int) ≤ job.limits.functionArgs)) ∧
        t = (s.inside o { g with args :=
            (ps.initial.map (Phrase.listing .rpn now.registries.operators)).reverse
              ++ g.args }).extend
          (Yard.empty.run .rpn now.registries.operators
            (ps.final.pieces .rpn now.registries.operators))
          (e ++ ps.entries .rpn now.registries.operators))

section

variable {job : Job} {now : Surroundings}

theorem Phrase.ScansForward.nil : Phrase.nil.ScansForward job now := by
  intro s y e before after i t _ _ _ _
  simp [Phrase.tokens, placesIn, Phrase.Sound, Phrase.pieces, Phrase.entries, Yard.run]

theorem Phrase.ScansForward.plain (hm : job.mode = .rpn) {u : Token} {rest : Phrase}
    (hmatched : (Phrase.plain u rest).Matched) (hrest : rest.ScansForward job now) :
    (Phrase.plain u rest).ScansForward job now := by
  obtain ⟨hw, hsep, hcall, hr⟩ := hmatched
  intro s y e before after i t hs hy ha _
  rw [Phrase.tokens, placesIn, scans_cons]
  by_cases hk : u.kind = .call
  · -- The name of a call without a bracket after it: neither side holds.
    have hafter : isKind .openBracket (rest.tokens.head?.or after) = false := by
      have := hcall hk
      cases hrt : rest.tokens.head? <;> simp_all
    constructor
    · rintro ⟨v, hv, -⟩
      have := ((visitForward_call hm hk).1 hv).1
      rw [hafter] at this
      cases this
    · rintro ⟨⟨hu, -⟩, -⟩
      simp [hk, Kind.isValue] at hu
  · simp only [visit_plain hs hw hsep hk, exists_eq_and]
    rw [hrest s _ e (some u) after (i + 1) t hs
      (hy.add (Piece.proper_ofToken u)) ha (by simp [isKind, hk]), ← and_assoc, hm]
    rfl

theorem Phrase.ScansForward.group (hm : job.mode = .rpn) {o c : Token} {q rest : Phrase}
    (ho : o.kind = .openBracket) (hc : c.kind = .closeBracket) (hq : q.ScansForward job now)
    (hrest : rest.ScansForward job now) :
    (Phrase.bracket none o (.last q) c rest).ScansForward job now := by
  intro s y e before after i t hs hy ha hb
  have hbefore := Phrase.not_call_before ho hb
  rw [Phrase.tokens, Option.toList, List.nil_append, placesIn_bracket, scans_cons]
  simp only [visitForward_open hm ho, exists_eq_left, hbefore, Bool.false_eq_true, if_false,
    scans_append, scans_cons, Phrases.tokens]
  generalize hg : Compile.Group.mk o i (s.extend y e).output.length none [] none = g
  have hstart : g.start = (s.extend y e).output.length := by rw [← hg]
  have howner : g.owner = none := by rw [← hg]
  have hq (v : State) := hq ((s.extend y e).inside o g) .empty []
    (some o) (some c) (i + 1) v (State.resting_inside (by simp [ho])) Yard.proper_empty
    (by simp [isKind, hc]) (by simp [isKind, ho])
  rw [State.extend_empty] at hq
  have hz : (Yard.empty.run .rpn now.registries.operators
      (q.pieces .rpn now.registries.operators)).Proper := Phrase.run_proper .rpn _ q
  simp only [hq, exists_eq_and, List.nil_append,
    visitForward_close hm hc ho hz hstart howner now.registries.operators]
  rw [hrest s _ _ (some c) after _ t hs (hy.operand _) ha
    (by simp [isKind, hc])]
  -- The bracket may be closed if something came out of it, and that is if there was something.
  constructor
  · rintro ⟨hsq, hne, hsr, rfl⟩
    refine ⟨⟨⟨q, rfl, fun hnil => hne (hsq.flushed_eq_nil_iff.2 hnil)⟩, hsq, hsr⟩, ?_⟩
    simp [Phrase.entries, Phrases.entries, Mode.join, Phrase.pieces]
    rfl
  · rintro ⟨⟨⟨p, hp, hne⟩, hsq, hsr⟩, rfl⟩
    obtain rfl := Phrases.last.inj hp
    refine ⟨hsq, fun hnil => hne (hsq.flushed_eq_nil_iff.1 hnil), hsr, ?_⟩
    simp [Phrase.entries, Phrases.entries, Mode.join, Phrase.pieces]
    rfl

/-- Where a separator is in a bracket that belongs to no call, neither side holds. -/
theorem Phrase.ScansForward.separated (hm : job.mode = .rpn) {o sep c : Token} {q rest : Phrase}
    {ps : Phrases} (ho : o.kind = .openBracket) (hsep : sep.kind = .separator)
    (hq : q.ScansForward job now) :
    (Phrase.bracket none o (.more q sep ps) c rest).ScansForward job now := by
  intro s y e before after i t hs hy ha hb
  have hbefore := Phrase.not_call_before ho hb
  constructor
  · -- The scan comes to the separator with a bracket around it that belongs to no call.
    intro h
    rw [Phrase.tokens, Option.toList, List.nil_append, placesIn_bracket, scans_cons] at h
    simp only [visitForward_open hm ho, exists_eq_left, hbefore, Bool.false_eq_true, if_false,
      Phrases.tokens, placesIn_append, placesIn, scans_append, scans_cons] at h
    obtain ⟨u, ⟨v, hv, w, hw, -⟩, -⟩ := h
    obtain ⟨-, rfl⟩ := (hq
      ((s.extend y e).inside o ⟨o, i, (s.extend y e).output.length, none, [], none⟩) .empty []
      (some o) (some sep) (i + 1) v (State.resting_inside (by simp [ho])) Yard.proper_empty
      (by simp [isKind, hsep]) (by simp [isKind, ho])).1 hv
    refine absurd hw (visitForward_separator_outside hm hsep fun g hg => ?_)
    obtain rfl : _ = g := by simpa [State.extend, State.inside] using hg
    rfl
  · rintro ⟨⟨⟨p, hp, -⟩, -⟩, -⟩
    cases hp

theorem Phrase.ScansForward.call (hm : job.mode = .rpn) {f o c : Token} {inner : Phrases}
    {rest : Phrase} (hf : f.kind = .call) (ho : o.kind = .openBracket)
    (hc : c.kind = .closeBracket) (hi : inner.ScansForward job now)
    (hrest : rest.ScansForward job now) :
    (Phrase.bracket (some f) o inner c rest).ScansForward job now := by
  intro s y e before after i t hs hy ha _
  rw [Phrase.tokens, Option.toList, List.cons_append, List.nil_append, placesIn,
    placesIn_bracket, scans_cons]
  have hcall : isKind .call (some f) = true := by simp [isKind, hf]
  simp only [visitForward_call hm hf, List.head?_cons, Option.some_or, scans_cons,
    visitForward_open hm ho, exists_eq_left, exists_eq_and, scans_append, hcall, if_true]
  -- From here on only what the frame says about its bracket matters.
  generalize hg : Compile.Group.mk o (i + 1)
    (s.extend ⟨f :: y.output, y.operators⟩ e).output.length (some f) [] none = g
  have hstart : g.start = (s.extend ⟨f :: y.output, y.operators⟩ e).output.length := by rw [← hg]
  have howner : g.owner = some f := by rw [← hg]
  have hargs : g.args = [] := by rw [← hg]
  have hinner (v : State) := hi
    (s.extend ⟨f :: y.output, y.operators⟩ e) o f g [] (some o) (some c) (i + 1 + 1) v ho hstart
    howner (by simp [isKind, hc]) (by simp [isKind, ho])
  rw [State.extend_empty] at hinner
  have hz : (Yard.empty.run .rpn now.registries.operators
      (inner.final.pieces .rpn now.registries.operators)).Proper := Phrase.run_proper .rpn _ _
  simp only [hinner, exists_eq_and, List.nil_append]
  generalize hg' : Compile.Group.mk _ _ g.start g.owner _ _ = g'
  have hstart' : g'.start = (s.extend ⟨f :: y.output, y.operators⟩ e).output.length := by
    rw [← hg', ← hstart]
  have howner' : g'.owner = some f := by rw [← hg', howner]
  have hargs' : g'.args = (inner.initial.map
      (Phrase.listing .rpn now.registries.operators)).reverse := by simp [← hg', hargs]
  simp only [visitForward_close_call hm hc ho hz hstart' howner', exists_eq_and]
  rw [hrest s ⟨f :: y.output, y.operators⟩ _ (some c) after _ t hs
    hy ha (by simp [isKind, hc])]
  constructor
  · rintro ⟨-, ⟨hsi, hinit⟩, hlast, hsr, rfl⟩
    obtain ⟨hiff, heq⟩ := hsi.close rfl hargs'
    rw [heq hlast.1]
    refine ⟨⟨hiff.1 ⟨by simpa [hargs] using hinit, hlast⟩, hsi, hsr⟩, ?_⟩
    simp [Phrase.entries, Mode.join, Phrase.pieces]
    rfl
  · rintro ⟨⟨hok, hsi, hsr⟩, rfl⟩
    obtain ⟨hiff, heq⟩ := hsi.close rfl hargs'
    obtain ⟨hinit, hlast⟩ := hiff.2 hok
    rw [heq hlast.1]
    refine ⟨by simp [isKind, ho], ⟨hsi, by simpa [hargs] using hinit⟩, hlast, hsr, ?_⟩
    simp [Phrase.entries, Mode.join, Phrase.pieces]
    rfl

theorem Phrases.ScansForward.last {p : Phrase} (hp : p.ScansForward job now) :
    (Phrases.last p).ScansForward job now := by
  intro s o f g e before after i t ho hg hf ha hb
  have h := hp (s.inside o g) .empty e before after i t
    (State.resting_inside (by simp [ho])) Yard.proper_empty ha (by simp [hb])
  rw [Phrases.tokens, h]
  simp [Phrases.Sound, Phrases.initial, Phrases.final, Phrases.entries]

theorem Phrases.ScansForward.more (hm : job.mode = .rpn) {p : Phrase} {sep : Token}
    {rest : Phrases} (hsep : sep.kind = .separator) (hp : p.ScansForward job now)
    (hr : rest.ScansForward job now) : (Phrases.more p sep rest).ScansForward job now := by
  intro s o f g e before after i t ho hg hf ha hb
  have h (v : State) := hp (s.inside o g) .empty e before (some sep)
    i v (State.resting_inside (by simp [ho])) Yard.proper_empty (by simp [isKind, hsep])
    (by simp [hb])
  have hz : (Yard.empty.run .rpn now.registries.operators
      (p.pieces .rpn now.registries.operators)).Proper := Phrase.run_proper .rpn _ _
  simp only [Phrases.tokens, placesIn_append, placesIn, scans_append, scans_cons, List.head?_cons,
    Option.some_or, h, exists_eq_and, visitForward_separator hm hsep ho hz hg hf]
  have hrest := hr s o f
    { g with args := p.listing .rpn now.registries.operators :: g.args }
    (e ++ p.entries .rpn now.registries.operators) (some sep) after (i + p.tokens.length + 1) t
    ho hg hf ha (by simp [isKind, hsep])
  refine Iff.trans (and_congr_right fun _ => and_congr_right fun _ => hrest) ?_
  constructor
  · rintro ⟨hsp, ⟨hne, hcount⟩, ⟨hsr, hinit, hcounts⟩, rfl⟩
    refine ⟨⟨⟨hsp, hsr⟩, ?_, fun _ => ?_⟩, ?_⟩
    · rintro q (_ | ⟨_, hq⟩)
      · exact fun hnil => hne (hsp.flushed_eq_nil_iff.2 hnil)
      · exact hinit q hq
    · by_cases hlast : rest.initial = []
      · simp only [Phrases.initial, hlast, List.length_cons, List.length_nil]
        omega
      · have := hcounts hlast
        simp only [Phrases.initial, List.length_cons] at this ⊢
        omega
    · simp [Phrases.initial, Phrases.final, Phrases.entries, Mode.join]
  · rintro ⟨⟨⟨hsp, hsr⟩, hinit, hcounts⟩, rfl⟩
    have hcount := hcounts (by simp [Phrases.initial])
    simp only [Phrases.initial, List.length_cons] at hcount
    refine ⟨hsp, ⟨fun hnil => ?_, by omega⟩, ⟨hsr, fun q hq => ?_, fun _ => ?_⟩, ?_⟩
    · exact hinit p List.mem_cons_self (hsp.flushed_eq_nil_iff.1 hnil)
    · exact hinit q (List.mem_cons_of_mem p hq)
    · simp only [List.length_cons]
      omega
    · simp [Phrases.initial, Phrases.final, Phrases.entries, Mode.join]

mutual

/-- **From the left, a phrase becomes the run of its pieces exactly if it is sound.** -/
theorem Phrase.scans_forward (hm : job.mode = .rpn) :
    (p : Phrase) → p.Matched → p.ScansForward job now
  | .nil, _ => .nil
  | .plain _ rest, h => .plain hm h (rest.scans_forward hm h.2.2.2)
  | .bracket none _ (.last q) _ rest, ⟨_, ho, hq, hc, hr⟩ =>
    .group hm ho hc (q.scans_forward hm hq) (rest.scans_forward hm hr)
  | .bracket none _ (.more q _ _) _ _, ⟨_, ho, ⟨hq, hsep, _⟩, _, _⟩ =>
    .separated hm ho hsep (q.scans_forward hm hq)
  | .bracket (some f) _ inner _ rest, ⟨hf, ho, hi, hc, hr⟩ =>
    .call hm (hf f rfl) ho hc (inner.scans_forward hm hi) (rest.scans_forward hm hr)

/-- The same of the arguments of a call. -/
theorem Phrases.scans_forward (hm : job.mode = .rpn) :
    (ps : Phrases) → ps.Matched → ps.ScansForward job now
  | .last p, hp => .last (p.scans_forward hm hp)
  | .more p _ rest, ⟨hp, hsep, hr⟩ =>
    .more hm hsep (p.scans_forward hm hp) (rest.scans_forward hm hr)

end

end

end Polish
