import Polish.Grammar.Scan
import Polish.Proofs.Table

/-!
# One round of a scan

A round of a scan can do three things, and each has its equation: at the end of the text the scan is
over (`Scan.turn_end`), where no rule matches it fails (`Scan.turn_stuck`), and where one does it
either counts one match without progress too many or goes on (`Scan.turn_match`).  Proofs about
scans use these and do not open a round.

`Grammar.Ends task s result` says that a scan comes to an end, whatever the number of rounds that it
takes.  By `Grammar.scan_mono`, more rounds never change how it ended.

## Why the rounds are counted here

The number of rounds with which `Grammar.parse` runs its scan is large enough for any grammar
without hooks, but there are grammars for which no number is.  What is proved about scans should not
depend on that number, and `Ends` leaves it open.  That it does not matter is one induction
(`scan_mono`), and `Ends.unique` then says that a scan has one result at most.
-/

set_option autoImplicit false

namespace Polish

namespace Scan

variable {task : ScanTask} {s s' : Scan} {rule : Rule} {width : Nat}

/-! ## Matches -/

/-- What is left of the text. -/
def rest (task : ScanTask) (s : Scan) : List Char := task.source.toList.drop s.index.toNat

theorem firstMatch_mem {rules : List Rule} {source : List Char} {offset : Nat}
    (h : firstMatch rules source offset = some (rule, width)) :
    rule ∈ rules ∧ rule.pattern.width? source offset = some width := by
  obtain ⟨found, hfound, hwidth⟩ := List.exists_of_findSome?_eq_some h
  obtain ⟨w, hw, heq⟩ := Option.map_eq_some_iff.1 hwidth
  obtain ⟨rfl, rfl⟩ := Prod.mk.inj heq
  exact ⟨hfound, hw⟩

/-- The first rule that matches is the first one that is not passed over. -/
theorem firstMatch_of {source : List Char} {i : Nat} {after : List Rule} (before : List Rule)
    (hbefore : ∀ r ∈ before, r.pattern.width? source i = none)
    (hrule : rule.pattern.width? source i = some width) :
    firstMatch (before ++ rule :: after) source i = some (rule, width) := by
  refine List.findSome?_eq_some_iff.2 ⟨before, rule, after, rfl, by rw [hrule]; rfl, fun r hr => ?_⟩
  rw [hbefore r hr]
  rfl

theorem width?_eq_none_iff {p : Pattern} {source : List Char} {i : Nat} :
    p.matcher.width? source i = none ↔ p.rest? (source.drop i) = none := Option.map_eq_none_iff

theorem width?_eq_some_iff {p : Pattern} {source : List Char} {i : Nat} :
    p.matcher.width? source i = some width ↔
      ∃ w u, source.drop i = w ++ u ∧ p.rest? (source.drop i) = some u ∧ width = w.length := by
  show p.width? (source.drop i) = some width ↔ _
  rw [Pattern.width?, Option.map_eq_some_iff]
  constructor
  · rintro ⟨u, hu, rfl⟩
    obtain ⟨w, hw⟩ := Pattern.suffix_of_rest? hu
    exact ⟨w, u, hw.symm, hu, by rw [← hw]; simp⟩
  · rintro ⟨w, u, hw, hu, rfl⟩
    exact ⟨u, hu, by rw [hw]; simp⟩

theorem width?_of_rest? {p : Pattern} {source chars rest : List Char} {i : Nat}
    (hdrop : source.drop i = chars ++ rest) (h : p.rest? (chars ++ rest) = some rest) :
    p.matcher.width? source i = some chars.length :=
  width?_eq_some_iff.2 ⟨chars, rest, hdrop, hdrop ▸ h, rfl⟩

theorem rest?_of_width? {p : Pattern} {source chars rest : List Char} {i : Nat}
    (hdrop : source.drop i = chars ++ rest)
    (h : p.matcher.width? source i = some chars.length) : p.rest? (chars ++ rest) = some rest := by
  obtain ⟨w, u, hsplit, hu, hlength⟩ := width?_eq_some_iff.1 h
  obtain ⟨-, rfl⟩ := List.append_inj (hdrop.symm.trans hsplit) hlength
  exact hdrop ▸ hu

theorem width?_eq_none {p : Pattern} {source text : List Char} {i : Nat}
    (hdrop : source.drop i = text) (h : p.rest? text = none) :
    p.matcher.width? source i = none :=
  width?_eq_none_iff.2 (hdrop ▸ h)

/-- The scan after a match, if it goes on. -/
def next (task : ScanTask) (s : Scan) (rule : Rule) (width : Nat) : Scan :=
  let (token, stop) := hit task.source.toList (s.rest task) s rule width
  { index := stop
    stalled := if stop = s.index then s.stalled + 1 else 0
    reachable := task.grammar.followers rule
    last := some rule
    emitted := if task.keepIgnored || !rule.ignore then token :: s.emitted else s.emitted }

/-- What is said of a text that no rule matches. -/
def stuck (task : ScanTask) (s : Scan) : LexError :=
  ⟨if s.reachable.isEmpty then .expectingEnd else .expecting (s.reachable.map (·.name)), s.index,
    task.source⟩

theorem expected_stuck : (s.stuck task).expected = s.reachable.map (·.name) := by
  rw [stuck]
  split
  · next hempty =>
    rw [List.isEmpty_iff.1 hempty]
    rfl
  · rfl

/-! ## What a round does -/

/-- At the end of the text the scan is over. -/
theorem turn_end (h : ¬ s.index < task.source.toList.length) :
    s.turn task = .inl (s.finish task) := by
  rw [turn, if_neg h]

/-- Where no rule matches, the scan fails. -/
theorem turn_stuck (h : s.index < task.source.toList.length)
    (hmatch : firstMatch s.reachable task.source.toList s.index.toNat = none) :
    s.turn task = .inl (.error (.lex (s.stuck task))) := by
  rw [turn, if_pos h, stuck, hmatch]
  by_cases hr : s.reachable.isEmpty = true
  · rw [if_pos hr, if_pos hr]
  · rw [if_neg hr, if_neg hr]

/-- Where a rule matches, the scan goes on, unless it has been standing still for too long. -/
theorem turn_match (h : s.index < task.source.toList.length)
    (hmatch : firstMatch s.reachable task.source.toList s.index.toNat = some (rule, width)) :
    s.turn task
      = if (s.next task rule width).index = s.index ∧
          task.limit < (s.next task rule width).stalled
        then .inl (.error (.grammar (.stalled rule.name task.limit s.index)))
        else .inr (s.next task rule width) := by
  have hr : ¬ s.reachable.isEmpty = true := by
    intro hr
    rw [List.isEmpty_iff.1 hr] at hmatch
    cases hmatch
  rw [turn, if_pos h, if_neg hr, hmatch]
  rfl

/-- A round that goes on has found a match. -/
theorem turn_eq_inr (h : s.turn task = .inr s') :
    s.index < task.source.toList.length ∧
      ∃ rule width, firstMatch s.reachable task.source.toList s.index.toNat = some (rule, width) ∧
        s' = s.next task rule width := by
  by_cases hi : s.index < task.source.toList.length
  · refine ⟨hi, ?_⟩
    cases hmatch : firstMatch s.reachable task.source.toList s.index.toNat with
    | none =>
      rw [turn_stuck hi hmatch] at h
      cases h
    | some found =>
      refine ⟨found.1, found.2, rfl, ?_⟩
      rw [turn_match hi hmatch] at h
      split at h
      · cases h
      · exact (Sum.inr.inj h).symm
  · rw [turn_end hi] at h
    cases h

/-- A round that ends the scan well is at the end of the text, after a rule that may be the last,
and answers with the tokens so far. -/
theorem turn_eq_ok {tokens : List Token} (h : s.turn task = .inl (.ok tokens)) :
    tokens = s.emitted.reverse ∧ (∀ rule ∈ s.last, rule.final = true) ∧
      ¬ s.index < task.source.toList.length := by
  by_cases hi : s.index < task.source.toList.length
  · exfalso
    cases hmatch : firstMatch s.reachable task.source.toList s.index.toNat with
    | none =>
      rw [turn_stuck hi hmatch] at h
      cases h
    | some found =>
      rw [turn_match hi hmatch] at h
      split at h <;> cases h
  · rw [turn_end hi, finish] at h
    split at h
    · cases h
    · next hfinal =>
      refine ⟨(Except.ok.inj (Sum.inl.inj h)).symm, fun rule hrule => ?_, hi⟩
      simpa [Option.mem_def.1 hrule] using hfinal

/-- Without a hook, a match makes a token of its lexeme and the scan goes on behind it. -/
theorem next_of_hook_eq_none (h : rule.hook = none) :
    s.next task rule width =
      { index := (s.index.toNat + width : Nat)
        stalled := if ((s.index.toNat + width : Nat) : Int) = s.index then s.stalled + 1 else 0
        reachable := task.grammar.followers rule
        last := some rule
        emitted := if task.keepIgnored || !rule.ignore then
          ⟨rule.kind, String.ofList ((s.rest task).take width), s.index, s.emitted.length⟩
            :: s.emitted
          else s.emitted } := by
  rw [next, hit, h]

end Scan

namespace Grammar

variable {task : ScanTask} {s s' : Scan} {result : Except ScanError (List Token)} {n : Nat}

/-! ## Whole scans -/

/-- A scan that has ended has ended, however many more rounds there are. -/
theorem scan_mono (h : scan task n s = some result) {m : Nat} (hm : n ≤ m) :
    scan task m s = some result := by
  induction n generalizing s m with
  | zero => cases h
  | succ n ih =>
    obtain ⟨m, rfl⟩ : ∃ k, m = k + 1 := ⟨m - 1, by omega⟩
    rw [scan] at h ⊢
    cases hturn : s.turn task with
    | inl ended =>
      rw [hturn] at h
      exact h
    | inr s' =>
      rw [hturn] at h
      exact ih h (by omega)

/-- The scan ends with a result after some number of rounds. -/
def Ends (task : ScanTask) (s : Scan) (result : Except ScanError (List Token)) : Prop :=
  ∃ rounds, scan task rounds s = some result

theorem Ends.of_turn (h : s.turn task = .inl result) : Ends task s result :=
  ⟨1, by rw [scan, h]⟩

theorem Ends.of_next (h : s.turn task = .inr s') (hends : Ends task s' result) :
    Ends task s result := by
  obtain ⟨rounds, hrounds⟩ := hends
  exact ⟨rounds + 1, by rw [scan, h]; exact hrounds⟩

theorem Ends.unique {result' : Except ScanError (List Token)} (h : Ends task s result)
    (h' : Ends task s result') : result = result' := by
  obtain ⟨n, hn⟩ := h
  obtain ⟨m, hm⟩ := h'
  have hn := scan_mono hn (Nat.le_max_left n m)
  rw [scan_mono hm (Nat.le_max_right n m)] at hn
  exact (Option.some.inj hn).symm

/-! ## Grammars without hooks -/

/-- No rule of the grammar has a hook. -/
def Hookless (g : Grammar) : Prop := ∀ rule ∈ g.rules.values, rule.hook = none

variable {g : Grammar} {rule : Rule}

theorem mem_values_of_find? {name : String} (h : g.rules.find? name = some rule) :
    rule ∈ g.rules.values :=
  List.mem_map.2 ⟨(name, rule), Table.find?_eq_some_iff.1 h, rfl⟩

theorem mem_values_of_mem_ruleNames {names : List String} (h : rule ∈ g.ruleNames names) :
    rule ∈ g.rules.values := by
  obtain ⟨name, -, hname⟩ := List.mem_filterMap.1 h
  exact mem_values_of_find? hname

theorem mem_values_of_mem_candidates {name : String} (h : rule ∈ g.candidates name) :
    rule ∈ g.rules.values := by
  rw [candidates, List.mem_append] at h
  rcases h with h | h
  · exact mem_values_of_find? (Option.mem_toList.1 h)
  · exact mem_values_of_mem_ruleNames h

theorem mem_addOnce {found : List Rule} {added : Rule} (h : rule ∈ addOnce found added) :
    rule ∈ found ∨ rule = added := by
  rw [addOnce] at h
  split at h
  · exact .inl h
  · rw [List.mem_append, List.mem_singleton] at h
    exact h

/-- Only rules of the grammar follow a rule. -/
theorem mem_values_of_mem_followers {before : Rule} (h : rule ∈ g.followers before) :
    rule ∈ g.rules.values := by
  have key (added found : List Rule) (hadded : ∀ r ∈ added, r ∈ g.rules.values)
      (hfound : ∀ r ∈ found, r ∈ g.rules.values) :
      ∀ r ∈ added.foldl addOnce found, r ∈ g.rules.values := by
    induction added generalizing found with
    | nil => exact hfound
    | cons first rest ih =>
      refine ih _ (fun r hr => hadded r (List.mem_cons_of_mem _ hr)) fun r hr => ?_
      rcases mem_addOnce hr with hr | rfl
      · exact hfound r hr
      · exact hadded _ List.mem_cons_self
  refine key _ [] (fun r hr => ?_) (by simp) rule h
  obtain ⟨name, -, hname⟩ := List.mem_flatMap.1 hr
  exact mem_values_of_mem_candidates hname

theorem mem_values_of_mem_entryRules {rules : List Rule} (h : g.entryRules = .ok rules)
    (hrule : rule ∈ rules) : rule ∈ g.rules.values := by
  rw [entryRules] at h
  split at h
  · next first hfirst =>
    obtain rfl := Except.ok.inj h
    obtain rfl := List.mem_singleton.1 hrule
    exact mem_values_of_find? hfirst
  · split at h
    · obtain rfl := Except.ok.inj h
      exact mem_values_of_mem_ruleNames hrule
    · cases h

/-- How a text is read, once the grammar is known to be in order. -/
theorem parse_eq {start : List Rule} (hcheck : g.check = .ok ()) (hentry : g.entryRules = .ok start)
    (source : String) (limit : Int) (keepIgnored : Bool) :
    g.parse source limit keepIgnored
      = (scan ⟨g, source, limit, keepIgnored⟩ (rounds ⟨g, source, limit, keepIgnored⟩)
          ⟨0, 0, start, none, []⟩).getD (.error .endless) := by
  rw [parse, hcheck, hentry]
  rfl

end Grammar

end Polish
