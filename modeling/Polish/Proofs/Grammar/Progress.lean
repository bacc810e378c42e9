import Polish.Proofs.Grammar.Stall

/-!
# Scans that hooks send back

A hook may set any offset for the scan to go on from, and the guard against standing still looks
only at whether a match ends where it began.  So each round of a scan does one of three things: it
moves on, it stands still and is counted, or it is sent back by a hook.  The first two can happen a
limited number of times in a row, which is what `Scan.roundsLeft` counts.

* `Scan.Goes.advances` — what a round does to the offset and to the count;
* `Scan.Goes.roundsLeft_lt` — a round that is not sent back leaves fewer rounds to come;
* `Scan.SentBack` — a round that goes back, and the hook that is the reason for it;
* `Grammar.stopped_unless_sent_back` — from wherever a scan has come to, it ends after a known
  number of rounds or is sent back, and so it always ends if no hook sends it back;
* `Grammar.forth_and_back` — two rules whose offsets go forth and back keep a scan going for ever,
  and the guard never notices.

## How the proof goes

A measure cannot go down in every round, since the claim is not that every scan ends.  So it is said
of a round what the measure does if the round does not go back (`Goes.roundsLeft_lt`): a step
forward pays for as many matches without progress as are allowed, and each of those for itself.
Either one of the rounds to come goes back, or their number is bounded, and the induction is on that
number.

The example is two rules by hand: `a` matches at 0 and goes on at 1, `b` matches at 1 and its hook
goes back to 0.  After two rounds the scan is where it was, but for the tokens that it has found.
Those are never looked at, so it is shown for any of them that no number of rounds is enough.
-/

set_option autoImplicit false

namespace Polish

open Relation (ReflTransGen)

/-! ## Rounds -/

namespace Scan

variable {task : ScanTask} {s s' : Scan}

/-- A round that goes on moves the scan and begins its count anew, or stands still within the
limit. -/
theorem Goes.advances (h : s.Goes task s') :
    s.index < task.source.toList.length ∧
      (s'.index = s.index ∧ s'.stalled = s.stalled + 1 ∧ (s'.stalled : Int) ≤ task.limit ∨
        s'.index ≠ s.index ∧ s'.stalled = 0) := by
  obtain ⟨inside, rule, width, hmatch, rfl⟩ := turn_eq_inr h
  refine ⟨inside, ?_⟩
  rw [Goes, turn_match inside hmatch] at h
  have hcount : (s.next task rule width).stalled
      = if (s.next task rule width).index = s.index then s.stalled + 1 else 0 := rfl
  split at h
  · cases h
  · next hgoes =>
    by_cases hstands : (s.next task rule width).index = s.index
    · refine .inl ⟨hstands, by rw [hcount, if_pos hstands], ?_⟩
      exact Int.not_lt.1 fun hlimit => hgoes ⟨hstands, hlimit⟩
    · exact .inr ⟨hstands, by rw [hcount, if_neg hstands]⟩

/-- More rounds than this are not to come, unless one of them goes back: each takes something off
the text or off the count of matches without progress that are still allowed. -/
def roundsLeft (task : ScanTask) (s : Scan) : Nat :=
  (task.source.toList.length - s.index).toNat * (task.limit.toNat + 2)
    + (task.limit.toNat + 1 - s.stalled)

theorem Goes.roundsLeft_lt (h : s.Goes task s') (honward : s.index ≤ s'.index) :
    s'.roundsLeft task < s.roundsLeft task := by
  obtain ⟨inside, ⟨hstands, hcount, hlimit⟩ | ⟨hmoves, hcount⟩⟩ := h.advances
  · rw [roundsLeft, roundsLeft, hstands]
    omega
  · obtain ⟨gap, hgap⟩ : ∃ gap : Nat, (task.source.toList.length - s.index).toNat
        = (task.source.toList.length - s'.index).toNat + (gap + 1) :=
      ⟨(task.source.toList.length - s.index).toNat
        - (task.source.toList.length - s'.index).toNat - 1, by omega⟩
    have hone : 1 * (task.limit.toNat + 2) ≤ (gap + 1) * (task.limit.toNat + 2) :=
      Nat.mul_le_mul_right _ (by omega)
    rw [roundsLeft, roundsLeft, hgap, Nat.add_mul]
    omega

/-- A scan begins with this many rounds to come. -/
theorem roundsLeft_begin (task : ScanTask) (start : List Rule) :
    roundsLeft task ⟨0, 0, start, none, []⟩ + 1
      = (task.source.toList.length + 1) * (task.limit.toNat + 2) := by
  simp only [roundsLeft, Int.sub_zero, Int.toNat_natCast, Nat.add_mul]
  omega

/-! ## Going back -/

/-- A round that ends before the offset where it began, as a hook has it. -/
def SentBack (task : ScanTask) (s s' : Scan) : Prop :=
  s.Goes task s' ∧ s'.index < s.index ∧
    ∃ rule ∈ s.reachable, ∃ hook ∈ rule.hook, ∃ hit : Hit,
      hit.token.pos = s.index ∧ (hook hit).2 = some s'.index

/-- Nothing but a hook makes a scan go back. -/
theorem Goes.sentBack (h : s.Goes task s') (hback : s'.index < s.index) : s.SentBack task s' := by
  refine ⟨h, hback, ?_⟩
  obtain ⟨-, rule, width, hmatch, rfl⟩ := turn_eq_inr h
  refine ⟨rule, (firstMatch_mem hmatch).1, ?_⟩
  cases hhook : rule.hook with
  | none =>
    rw [next_of_hook_eq_none hhook] at hback
    simp only at hback
    omega
  | some hook =>
    let hit : Hit := ⟨task.source.toList, s.index.toNat + width, s.emitted,
      ⟨rule.kind, String.ofList ((s.rest task).take width), s.index, s.emitted.length⟩⟩
    have hindex : (s.next task rule width).index
        = (hook hit).2.getD (s.index.toNat + width : Nat) := by
      simp only [next, Scan.hit, hhook]
      rfl
    refine ⟨hook, rfl, hit, rfl, ?_⟩
    cases hset : (hook hit).2 with
    | none =>
      rw [hindex, hset, Option.getD_none] at hback
      omega
    | some offset => rw [hindex, hset, Option.getD_some]

end Scan

/-- The hook sets no offset before the match that it is told of. -/
def Hook.Forward (hook : Hook) : Prop :=
  ∀ hit : Hit, ∀ offset ∈ (hook hit).2, hit.token.pos ≤ offset

namespace Grammar

variable {g : Grammar} {task : ScanTask} {start : List Rule} {s : Scan}

/-- No hook of the grammar ever sends a scan back. -/
def Forward (g : Grammar) : Prop := ∀ rule ∈ g.rules.values, ∀ hook ∈ rule.hook, hook.Forward

/-! ## Whole scans -/

/-- **A scan ends, or it is sent back.** -/
theorem ends_or_sentBack {n : Nat} (hn : s.roundsLeft task < n) :
    (∃ result, scan task n s = some result) ∨
      ∃ s₁ s₂, ReflTransGen (Scan.Goes task) s s₁ ∧ s₁.SentBack task s₂ := by
  induction n generalizing s with
  | zero => omega
  | succ n ih =>
    cases hturn : s.turn task with
    | inl result => exact .inl ⟨result, by rw [scan, hturn]⟩
    | inr s' =>
      have hgoes : s.Goes task s' := hturn
      rcases Int.lt_or_le s'.index s.index with hback | honward
      · exact .inr ⟨s, s', .refl, hgoes.sentBack hback⟩
      · have hless := hgoes.roundsLeft_lt honward
        have hrest : (∃ result, scan task n s' = some result) ∨
            ∃ s₁ s₂, ReflTransGen (Scan.Goes task) s' s₁ ∧ s₁.SentBack task s₂ := ih (by omega)
        rcases hrest with ⟨result, hresult⟩ | ⟨s₁, s₂, hreached, hsent⟩
        · exact .inl ⟨result, by rw [scan, hturn]; exact hresult⟩
        · exact .inr ⟨s₁, s₂, .head hgoes hreached, hsent⟩

/-- The rules that a scan tries are rules of the grammar. -/
theorem mem_values_of_goes (hentry : task.grammar.entryRules = .ok start)
    (h : ReflTransGen (Scan.Goes task) ⟨0, 0, start, none, []⟩ s) :
    ∀ rule ∈ s.reachable, rule ∈ task.grammar.rules.values := by
  induction h with
  | refl => exact fun rule hrule => mem_values_of_mem_entryRules hentry hrule
  | tail _ hgoes _ =>
    obtain ⟨-, rule, width, -, rfl⟩ := Scan.turn_eq_inr hgoes
    exact fun rule hrule => mem_values_of_mem_followers hrule

/-- A grammar whose hooks send no scan back sends none back. -/
theorem Forward.not_sentBack (hg : task.grammar.Forward)
    (hentry : task.grammar.entryRules = .ok start)
    (h : ReflTransGen (Scan.Goes task) ⟨0, 0, start, none, []⟩ s) {s' : Scan} :
    ¬ s.SentBack task s' := by
  rintro ⟨-, hback, rule, hrule, hook, hhook, hit, hpos, hset⟩
  have hforward := hg rule (mem_values_of_goes hentry h rule hrule) hook hhook hit s'.index hset
  omega

/-- No scan says of itself that it is endless. -/
theorem scan_ne_endless {n : Nat} : scan task n s ≠ some (.error .endless) := by
  induction n generalizing s with
  | zero => nofun
  | succ n ih =>
    rw [scan]
    cases hturn : s.turn task with
    | inr s' => exact ih
    | inl result =>
      intro hended
      obtain rfl := Option.some.inj hended
      by_cases inside : s.index < task.source.toList.length
      · cases hmatch : Scan.firstMatch s.reachable task.source.toList s.index.toNat with
        | none => cases (Scan.turn_stuck inside hmatch).symm.trans hturn
        | some found =>
          rw [Scan.turn_match inside hmatch] at hturn
          split at hturn <;> cases hturn
      · rw [Scan.turn_end inside, Scan.finish] at hturn
        split at hturn <;> cases hturn

/-- **A scan goes on for ever only if a hook sends it back again and again.**  From wherever it has
come to, it ends after a known number of rounds unless a match ends before the offset where it
began, which only a hook can bring about; the guard lets no more matches in a row end where they
began than the limit allows, whatever the hooks do.  So a grammar whose hooks never go back reads
every text in a known number of rounds. -/
theorem stopped_unless_sent_back (hcheck : g.check = .ok ()) (hentry : g.entryRules = .ok start)
    (source : String) (limit : Int) (keep : Bool) :
    (∀ s, ReflTransGen (Scan.Goes ⟨g, source, limit, keep⟩) ⟨0, 0, start, none, []⟩ s →
      ((∃ result, scan ⟨g, source, limit, keep⟩ (s.roundsLeft ⟨g, source, limit, keep⟩ + 1) s
          = some result) ∨
        ∃ s₁ s₂, ReflTransGen (Scan.Goes ⟨g, source, limit, keep⟩) s s₁ ∧
          s₁.SentBack ⟨g, source, limit, keep⟩ s₂) ∧
      ∀ s', s.Goes ⟨g, source, limit, keep⟩ s' →
        s'.index = s.index ∧ s'.stalled = s.stalled + 1 ∧ (s'.stalled : Int) ≤ limit ∨
          s'.index ≠ s.index ∧ s'.stalled = 0) ∧
      (g.Forward →
        (∃ rounds ≤ (source.toList.length + 1) * (limit.toNat + 2),
          scan ⟨g, source, limit, keep⟩ rounds ⟨0, 0, start, none, []⟩
            = some (g.parse source limit keep)) ∧
          g.parse source limit keep ≠ .error .endless) := by
  let task : ScanTask := ⟨g, source, limit, keep⟩
  let begin : Scan := ⟨0, 0, start, none, []⟩
  refine ⟨fun s _ => ⟨ends_or_sentBack (Nat.lt_succ_self _), fun s' hgoes => hgoes.advances.2⟩,
    fun hforward => ?_⟩
  -- No round is sent back, so one of those that the count allows is the last.
  obtain ⟨result, hresult⟩ : ∃ result, scan task (begin.roundsLeft task + 1) begin = some result :=
    (ends_or_sentBack (Nat.lt_succ_self _)).resolve_right
      fun ⟨_, _, hreached, hsent⟩ => hforward.not_sentBack hentry hreached hsent
  have hscan : scan task ((source.toList.length + 1) * (limit.toNat + 2)) begin = some result :=
    Scan.roundsLeft_begin task start ▸ hresult
  have hparse : g.parse source limit keep = result := by
    have hmany : (source.toList.length + 1) * (limit.toNat + 2) ≤ rounds task :=
      Nat.le_add_right _ _
    have hend : scan task (rounds task) begin = some result := scan_mono hscan hmany
    rw [parse_eq hcheck hentry, hend, Option.getD_some]
  refine ⟨⟨_, Nat.le_refl _, hparse ▸ hscan⟩, fun hendless => ?_⟩
  obtain rfl := hparse.symm.trans hendless
  exact scan_ne_endless hscan

/-- A word whose hook steps over the mark after it: both words of a text are read. -/
theorem stopped_unless_sent_back_skip :
    ∃ (g : Grammar) (start : List Rule), g.check = .ok () ∧ g.entryRules = .ok start ∧
      (∃ rule ∈ g.rules.values, rule.hook.isSome) ∧ g.Forward ∧
      (∃ rounds ≤ (4 + 1) * (2 + 2), scan ⟨g, "a!a!", 2, false⟩ rounds ⟨0, 0, start, none, []⟩
          = some (g.parse "a!a!" 2 false)) ∧
        g.parse "a!a!" 2 false ≠ .error .endless := by
  let hook : Hook := fun hit => (hit.token, some (hit.token.pos + 2))
  let word : Rule := ⟨"word", Pattern.mk (.char 'a') false, ["word"], some hook, false, none, true⟩
  let g : Grammar := .ofLists [word] [] "word"
  have hvalues : g.rules.values = [word] := rfl
  have hforward : g.Forward := by
    intro rule hrule found hfound hit offset hoffset
    obtain rfl := List.mem_singleton.1 (hvalues ▸ hrule)
    obtain rfl := Option.some.inj hfound
    obtain rfl := Option.some.inj hoffset
    omega
  exact ⟨g, [word], rfl, rfl, ⟨word, hvalues ▸ List.mem_singleton_self word, rfl⟩, hforward,
    (stopped_unless_sent_back rfl rfl "a!a!" 2 false).2 hforward⟩

/-! ## Forth and back -/

namespace Swing

def forth : Rule := ⟨"forth", Pattern.mk (.char 'a') false, ["back"], none, true, none, true⟩

/-- Its hook has the scan go on two characters before the end of the match. -/
def back : Rule :=
  ⟨"back", Pattern.mk (.char 'b') false, ["forth"],
    some fun hit => (hit.token, some (hit.stop - 2)), true, none, true⟩

def ab : ScanTask := ⟨.ofLists [forth, back] [] "forth", "ab", 3, false⟩

def atStart (last : Option Rule) : Scan := ⟨0, 0, [forth], last, []⟩

def atSecond : Scan := ⟨1, 0, [back], some forth, []⟩

theorem source_eq : ab.source.toList = ['a', 'b'] := by decide

theorem turn_atStart (last : Option Rule) : (atStart last).turn ab = .inr atSecond := by
  have inside : (atStart last).index < ab.source.toList.length := by
    rw [source_eq]
    exact Int.natCast_pos.2 Nat.two_pos
  have hmatch : Scan.firstMatch (atStart last).reachable ab.source.toList
      (atStart last).index.toNat = some (forth, 1) := by
    rw [source_eq]
    rfl
  have hnext : (atStart last).next ab forth 1 = atSecond := rfl
  have hmoves : ¬ atSecond.index = (atStart last).index := Int.one_ne_zero
  rw [Scan.turn_match inside hmatch, hnext, if_neg fun h => hmoves h.1]

theorem turn_atSecond : atSecond.turn ab = .inr (atStart (some back)) := by
  have inside : atSecond.index < ab.source.toList.length := by
    rw [source_eq]
    decide
  have hmatch : Scan.firstMatch atSecond.reachable ab.source.toList atSecond.index.toNat
      = some (back, 1) := by
    rw [source_eq]
    rfl
  have hnext : atSecond.next ab back 1 = atStart (some back) := rfl
  have hmoves : ¬ (atStart (some back)).index = atSecond.index := Int.zero_ne_one
  rw [Scan.turn_match inside hmatch, hnext, if_neg fun h => hmoves h.1]

theorem scan_eq_none (n : Nat) :
    (∀ last, scan ab n (atStart last) = none) ∧ scan ab n atSecond = none := by
  induction n with
  | zero => exact ⟨fun _ => rfl, rfl⟩
  | succ n ih =>
    refine ⟨fun last => ?_, ?_⟩
    · rw [scan, turn_atStart]
      exact ih.2
    · rw [scan, turn_atSecond]
      exact ih.1 _

end Swing

/-- Two rules whose offsets go forth and back: every match moves the scan, so that the guard counts
none of them, and no number of rounds brings it to an end. -/
theorem forth_and_back :
    Swing.ab.grammar.check = .ok () ∧ Swing.ab.grammar.entryRules = .ok [Swing.forth] ∧
      ¬ ∃ result, Ends Swing.ab ⟨0, 0, [Swing.forth], none, []⟩ result := by
  refine ⟨rfl, rfl, fun ⟨result, rounds, hended⟩ => ?_⟩
  cases ((Swing.scan_eq_none rounds).1 none).symm.trans hended

end Grammar

end Polish
