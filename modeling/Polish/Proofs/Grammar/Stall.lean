import Mathlib.Logic.Relation
import Polish.Proofs.Grammar.Walk

/-!
# When a scan is stopped for standing still

A rule may match the empty text, and rules that do so can follow each other in a circle.  The guard
against it counts the matches without progress in a row.  A `Grammar.Walk` knows nothing of the
guard: it goes on as long as some rule matches.  This file says how far a scan follows a walk.

* `Lexeme.Within` — at no point of the walk do more matches stand still in a row than the limit
  allows;
* `Scan.goes_iff` — the states of a scan are those after the walks that are within the limit;
* `Grammar.Hookless.parse_of_walk` — so a walk within the limit that has come to its end gives the
  result, whatever the number of rounds;
* `Grammar.stalls_iff` — and a scan is stopped exactly if some walk exceeds the limit.

## How the proof goes

A walk that exceeds the limit at its end may have exceeded it before, and then the scan was stopped
at that place and never came this far.  So from a long walk it cannot be concluded at once how the
scan ends.  `Walk.within_or_stalled` goes along the walk: as long as it is within the limit the scan
follows, and at the first lexeme that is too much it stops.

A limit below zero is left out of `stalls_iff`, since a scan that has not matched anything yet would
exceed it.
-/

set_option autoImplicit false

namespace Polish

open Lexeme (covered standing)

/-! ## Walks within the limit -/

namespace Lexeme

variable {limit : Int} {ls : List Lexeme} {l : Lexeme}

/-- Nowhere among the lexemes are there more empty ones in a row than the limit allows. -/
def Within (limit : Int) (ls : List Lexeme) : Prop :=
  ∀ before, before <+: ls → standing before = 0 ∨ (standing before : Int) ≤ limit

theorem within_nil : Within limit [] := by
  intro before h
  rw [List.prefix_nil.1 h]
  exact .inl rfl

theorem within_concat :
    Within limit (ls ++ [l])
      ↔ Within limit ls ∧ (l.width = 0 → (standing ls + 1 : Nat) ≤ limit) := by
  have hwhole : (standing (ls ++ [l]) = 0 ∨ (standing (ls ++ [l]) : Int) ≤ limit)
      ↔ (l.width = 0 → (standing ls + 1 : Nat) ≤ limit) := by
    rw [standing_concat]
    split <;> simp [*]
  constructor
  · intro h
    exact ⟨fun before hbefore => h before (hbefore.trans (List.prefix_append ls [l])),
      hwhole.1 (h _ List.prefix_rfl)⟩
  · rintro ⟨hwithin, hlast⟩ before hbefore
    rcases List.prefix_concat_iff.1 hbefore with rfl | hbefore
    · exact hwhole.2 hlast
    · exact hwithin before hbefore

/-- An allowance that is not negative is not exceeded. -/
theorem Within.standing_le (h : Within limit ls) (hlimit : 0 ≤ limit) : standing ls ≤ limit := by
  rcases h ls List.prefix_rfl with hzero | hle
  · rw [hzero]
    exact hlimit
  · exact hle

end Lexeme

namespace Grammar

/-- The last step of a walk. -/
theorem Walk.last {g : Grammar} {source : List Char} {start : List Rule} {ls : List Lexeme}
    {l : Lexeme} (h : g.Walk source start (ls ++ [l])) :
    g.Walk source start ls ∧ covered ls < source.length ∧ l.offset = covered ls ∧
      Scan.firstMatch (g.reached start ls) source (covered ls) = some (l.rule, l.width) := by
  generalize hall : ls ++ [l] = all at h
  cases h with
  | nil => exact absurd hall (by simp)
  | concat before inside first =>
    obtain ⟨rfl, hl⟩ := List.append_inj' hall rfl
    obtain rfl := List.singleton_inj.1 hl
    exact ⟨before, inside, rfl, first⟩

end Grammar

/-! ## The scan along a walk -/

namespace Scan

variable {task : ScanTask} {start : List Rule} {ls : List Lexeme} {l : Lexeme} {s s' : Scan}

/-- A round that finds a match and goes on. -/
def Goes (task : ScanTask) (s s' : Scan) : Prop := s.turn task = .inr s'

/-- After a walk comes its next lexeme, unless that makes one match too many without progress. -/
theorem advance_of_walk (h : task.grammar.Walk task.source.toList start (ls ++ [l])) :
    advance task start ls
      = if l.width = 0 ∧ task.limit < (standing ls + 1 : Nat) then
          .inl (.error (.grammar (.stalled l.rule.name task.limit (covered ls))))
        else .inr l := by
  obtain ⟨-, inside, hoffset, hfirst⟩ := h.last
  rw [advance, if_pos inside, hfirst]
  simp only [← hoffset]

theorem goes_of_walk (hg : task.grammar.Hookless) (hstart : task.grammar.entryRules = .ok start)
    (h : task.grammar.Walk task.source.toList start (ls ++ [l]))
    (hlimit : l.width = 0 → (standing ls + 1 : Nat) ≤ task.limit) :
    (after task start ls).Goes task (after task start (ls ++ [l])) := by
  have hnext : ¬ (l.width = 0 ∧ task.limit < (standing ls + 1 : Nat)) := fun hstalled =>
    Int.not_lt.2 (hlimit hstalled.1) hstalled.2
  rw [Goes, turn_after hg hstart, advance_of_walk h, if_neg hnext]

/-- **The states of a scan** are those after the walks that are within the limit. -/
theorem goes_iff (hg : task.grammar.Hookless) (hstart : task.grammar.entryRules = .ok start) :
    Relation.ReflTransGen (Goes task) (after task start []) s
      ↔ ∃ ls, task.grammar.Walk task.source.toList start ls ∧ Lexeme.Within task.limit ls ∧
          s = after task start ls := by
  constructor
  · intro h
    induction h with
    | refl => exact ⟨[], .nil, Lexeme.within_nil, rfl⟩
    | tail _ hgoes ih =>
      obtain ⟨ls, hwalk, hwithin, rfl⟩ := ih
      rw [Goes, turn_after hg hstart] at hgoes
      cases hnext : advance task start ls with
      | inl result =>
        rw [hnext] at hgoes
        cases hgoes
      | inr l =>
        rw [hnext] at hgoes
        obtain ⟨hwalk', hlimit⟩ := advance_eq_inr hnext hwalk
        exact ⟨ls ++ [l], hwalk', Lexeme.within_concat.2 ⟨hwithin, hlimit⟩,
          (Sum.inr.inj hgoes).symm⟩
  · rintro ⟨ls, hwalk, hwithin, rfl⟩
    induction hwalk with
    | nil => exact .refl
    | concat before inside first ih =>
      obtain ⟨hbefore, hlimit⟩ := Lexeme.within_concat.1 hwithin
      exact (ih hbefore).tail (goes_of_walk hg hstart (before.concat inside first) hlimit)

end Scan

namespace Grammar

variable {g : Grammar} {source : String} {limit : Int} {keep : Bool} {start : List Rule}
  {ls : List Lexeme} {l : Lexeme}

theorem Ends.of_goes {task : ScanTask} {s s' : Scan} {result : Except ScanError (List Token)}
    (h : Relation.ReflTransGen (Scan.Goes task) s s') (hends : Ends task s' result) :
    Ends task s result := by
  induction h with
  | refl => exact hends
  | tail _ hgoes ih => exact ih (hends.of_next hgoes)

/-- **A walk within the limit gives the result**, if it has come to its end. -/
theorem Hookless.parse_of_walk (hg : g.Hookless) (hcheck : g.check = .ok ())
    (hentry : g.entryRules = .ok start) (hwalk : g.Walk source.toList start ls)
    (hwithin : Lexeme.Within limit ls) {result : Except ScanError Unit}
    (hend : Scan.advance ⟨g, source, limit, keep⟩ start ls = .inl result) :
    g.parse source limit keep
      = result.map fun _ => Lexeme.tokens source.toList (ls.filter (Scan.keeps keep)) := by
  let task : ScanTask := ⟨g, source, limit, keep⟩
  have hturn : (Scan.after task start ls).turn task
      = .inl (result.map fun _ => Lexeme.tokens source.toList (ls.filter (Scan.keeps keep))) := by
    rw [Scan.turn_after hg hentry, hend]
  exact hg.parse_of_ends hcheck hentry
    (.of_goes ((Scan.goes_iff hg hentry).2 ⟨ls, hwalk, hwithin, rfl⟩) (.of_turn hturn))

/-- A walk is within the limit, or the scan is stopped somewhere along it. -/
theorem Walk.within_or_stalled (hg : g.Hookless) (hcheck : g.check = .ok ())
    (hentry : g.entryRules = .ok start) (hwalk : g.Walk source.toList start ls) :
    Lexeme.Within limit ls ∨
      ∃ rule index, g.parse source limit keep = .error (.grammar (.stalled rule limit index)) := by
  induction hwalk with
  | nil => exact .inl Lexeme.within_nil
  | @concat ls rule width before inside first ih =>
    rcases ih with hwithin | hstalled
    · by_cases hlimit : width = 0 ∧ limit < (standing ls + 1 : Nat)
      · have hend := @Scan.advance_of_walk ⟨g, source, limit, keep⟩ start ls _
          (before.concat inside first)
        rw [if_pos hlimit] at hend
        exact .inr ⟨_, _, hg.parse_of_walk hcheck hentry before hwithin hend⟩
      · exact .inl (Lexeme.within_concat.2 ⟨hwithin, fun hwidth =>
          Int.not_lt.1 fun hless => hlimit ⟨hwidth, hless⟩⟩)
    · exact .inr hstalled

/-- Where a scan is stopped, its walk has gone on with one match too many. -/
theorem exists_walk_of_stalled {rule : String} {bound index : Int}
    (hwalk : g.Walk source.toList start ls)
    (h : Scan.advance ⟨g, source, limit, keep⟩ start ls
      = .inl (.error (.grammar (.stalled rule bound index)))) :
    ∃ l, g.Walk source.toList start (ls ++ [l]) ∧ limit < standing (ls ++ [l]) := by
  rw [Scan.advance] at h
  split at h
  · next inside =>
    split at h
    · cases h
    · next found width hfirst =>
      split at h
      · next hlimit =>
        refine ⟨⟨found, covered ls, width⟩, hwalk.concat inside hfirst, ?_⟩
        rw [Lexeme.standing_concat, if_pos hlimit.1]
        exact hlimit.2
      · cases h
  · split at h <;> cases h

/-- **The guard against standing still is exact**, and with it every scan is over after a known
number of rounds.  A text is refused for lack of progress if and only if taking the first rule that
matches, again and again, finds more matches in a row without progress than the limit allows.  The
count of a scan begins anew at every match that makes progress. -/
theorem stalls_iff (hg : g.Hookless) (hcheck : g.check = .ok ()) (hentry : g.entryRules = .ok start)
    (source : String) (hlimit : 0 ≤ limit) (keep : Bool) :
    (∃ rounds ≤ (source.toList.length + 1) * (limit.toNat + 2),
        scan ⟨g, source, limit, keep⟩ rounds ⟨0, 0, start, none, []⟩
          = some (g.parse source limit keep)) ∧
      ((∃ rule bound index,
          g.parse source limit keep = .error (.grammar (.stalled rule bound index))) ↔
        ∃ ls, g.Walk source.toList start ls ∧ limit < standing ls) ∧
      ∀ s s', Relation.ReflTransGen (Scan.Goes ⟨g, source, limit, keep⟩) ⟨0, 0, start, none, []⟩ s →
        s.Goes ⟨g, source, limit, keep⟩ s' →
          s.index ≤ s'.index ∧ s'.stalled = if s.index < s'.index then 0 else s.stalled + 1 := by
  obtain ⟨all, result, hwalk, hresult, hscan⟩ :=
    exists_walk hg hentry .nil (@roundsLeft_nil source limit)
  have hparse : g.parse source limit keep
      = result.map fun _ => Lexeme.tokens source.toList (all.filter (Scan.keeps keep)) :=
    hg.parse_of_ends hcheck hentry ⟨_, hscan keep⟩
  refine ⟨⟨_, Nat.le_refl _, hg.scan_parse hcheck hentry⟩, ⟨?_, ?_⟩, ?_⟩
  · rintro ⟨rule, bound, index, hstalled⟩
    rw [hparse] at hstalled
    cases result with
    | ok u => cases hstalled
    | error failure =>
      obtain rfl : failure = .grammar (.stalled rule bound index) := Except.error.inj hstalled
      obtain ⟨l, hlonger⟩ := exists_walk_of_stalled hwalk (hresult keep)
      exact ⟨_, hlonger⟩
  · -- A walk that goes too far need not be the one of the scan, which may have been stopped before.
    rintro ⟨ls, hls, hmany⟩
    have hstalls : Lexeme.Within limit ls ∨ ∃ rule index,
        g.parse source limit keep = .error (.grammar (.stalled rule limit index)) :=
      hls.within_or_stalled hg hcheck hentry
    rcases hstalls with hwithin | ⟨rule, index, hstalled⟩
    · exact absurd (hwithin.standing_le hlimit) (Int.not_le.2 hmany)
    · exact ⟨rule, limit, index, hstalled⟩
  · intro s s' hreached hgoes
    obtain ⟨ls, hls, hwithin, rfl⟩ := (Scan.goes_iff hg hentry).1 hreached
    rw [Scan.Goes, Scan.turn_after hg hentry] at hgoes
    cases hnext : Scan.advance ⟨g, source, limit, keep⟩ start ls with
    | inl ended =>
      rw [hnext] at hgoes
      cases hgoes
    | inr l =>
      rw [hnext] at hgoes
      obtain rfl := Sum.inr.inj hgoes
      simp only [Scan.after, Lexeme.covered_concat, Lexeme.standing_concat]
      refine ⟨by omega, ?_⟩
      by_cases hwidth : l.width = 0
      · rw [if_pos hwidth, if_neg (by omega)]
      · rw [if_neg hwidth, if_pos (by omega)]

/-- Two rules that match the empty text and follow each other are stopped where three matches
without progress are allowed. -/
theorem stalls_circle :
    ∃ (g : Grammar) (start : List Rule), g.Hookless ∧ g.check = .ok () ∧ g.entryRules = .ok start ∧
      ∃ rule bound index, g.parse "y" 3 false = .error (.grammar (.stalled rule bound index)) := by
  let rule (name next : String) : Rule :=
    ⟨name, Pattern.mk (.many (.char 'x')) false, [next], none, false, none, true⟩
  let first := rule "first" "second"
  let second := rule "second" "first"
  let g : Grammar := .ofLists [first, second] [] "first"
  have hg : g.Hookless := by
    intro r hr
    have hvalues : g.rules.values = [first, second] := rfl
    rw [hvalues, List.mem_cons, List.mem_singleton] at hr
    rcases hr with rfl | rfl <;> rfl
  have hsource : "y".toList = ['y'] := by decide
  have hwalk : g.Walk "y".toList [first]
      [⟨first, 0, 0⟩, ⟨second, 0, 0⟩, ⟨first, 0, 0⟩, ⟨second, 0, 0⟩] := by
    rw [hsource]
    have inside : 0 < ['y'].length := by decide
    have once : g.Walk ['y'] [first] [⟨first, 0, 0⟩] := .concat .nil inside rfl
    have twice : g.Walk ['y'] [first] [⟨first, 0, 0⟩, ⟨second, 0, 0⟩] := once.concat inside rfl
    have again : g.Walk ['y'] [first] [⟨first, 0, 0⟩, ⟨second, 0, 0⟩, ⟨first, 0, 0⟩] :=
      twice.concat inside rfl
    exact again.concat inside rfl
  exact ⟨g, [first], hg, rfl, rfl,
    (stalls_iff hg rfl rfl "y" (by decide) false).2.1.2 ⟨_, hwalk, by decide⟩⟩

end Grammar

end Polish
