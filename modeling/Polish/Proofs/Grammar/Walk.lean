import Mathlib.Algebra.GroupWithZero.Nat
import Polish.Proofs.Grammar.Round

/-!
# A scan is a walk through the rules

Without hooks, what a scan does is settled by the matches that it has found: a `Lexeme` is one of
them, and `Grammar.Walk` says that some lexemes are what comes of taking the first rule that matches
again and again.  The scan after a walk is `Scan.after`: its offset, its rules, its count of matches
without progress and its tokens are all read off the lexemes.

`Scan.advance` is what comes next after a walk, the next lexeme or the end.  It does not ask which
tokens are kept, and so

* `Scan.turn_after` — a round is a step of the walk;
* `Grammar.exists_walk` — every scan comes to an end, and where it does is settled by the walk;
* `Grammar.parse_eq_walk` — so a text is read with its ignored tokens and without them in the same
  way, and the number of rounds that a scan is given is always enough.

## How the proof goes

The scan is a loop over a state, and the walk is a list that grows at its end.  `Scan.after` takes
the list to the state, and `turn_after` says that a round takes the state of a walk to that of the
next; it is the only place where a round is opened.  Whatever else is proved about grammars without
hooks is proved about walks, by induction on their last lexeme.

That the rounds are enough goes by a count of what is left (`Scan.roundsLeft`): characters, each
worth as many rounds as matches without progress are allowed and two more, and the matches without
progress that are still allowed here.
-/

set_option autoImplicit false

namespace Polish

/-! ## Lexemes -/

/-- A match of a rule: where it begins and how long it is. -/
structure Lexeme where
  rule : Rule
  offset : Nat
  width : Nat

namespace Lexeme

/-- The characters of a lexeme. -/
def chars (source : List Char) (l : Lexeme) : List Char := (source.drop l.offset).take l.width

/-- The token that is made of a lexeme. -/
def token (source : List Char) (handle : Nat) (l : Lexeme) : Token :=
  ⟨l.rule.kind, String.ofList (l.chars source), l.offset, handle⟩

/-- The tokens of lexemes, numbered from zero. -/
def tokens (source : List Char) (ls : List Lexeme) : List Token := ls.mapIdx (token source)

theorem length_tokens (source : List Char) (ls : List Lexeme) :
    (tokens source ls).length = ls.length := List.length_mapIdx

theorem tokens_concat (source : List Char) (ls : List Lexeme) (l : Lexeme) :
    tokens source (ls ++ [l]) = tokens source ls ++ [l.token source ls.length] := by
  rw [tokens, List.mapIdx_append, List.mapIdx_singleton, Nat.zero_add]
  rfl

theorem map_handle_tokens (source : List Char) (ls : List Lexeme) :
    (tokens source ls).map Token.handle = List.range ls.length := by
  refine List.ext_getElem (by simp [tokens]) fun i h h' => ?_
  rw [List.getElem_map, List.getElem_range]
  simp only [tokens, List.getElem_mapIdx]
  rfl

/-- How far lexemes reach. -/
def covered (ls : List Lexeme) : Nat := (ls.map width).sum

@[simp] theorem covered_nil : covered [] = 0 := rfl

theorem covered_concat (ls : List Lexeme) (l : Lexeme) :
    covered (ls ++ [l]) = covered ls + l.width := by
  rw [covered, List.map_append, List.sum_append, covered, List.map_singleton, List.sum_singleton]

theorem covered_append (ls more : List Lexeme) :
    covered (ls ++ more) = covered ls + covered more := by
  rw [covered, List.map_append, List.sum_append, covered, covered]

/-- How many lexemes at the end are empty. -/
def standing (ls : List Lexeme) : Nat := (ls.reverse.takeWhile (·.width = 0)).length

@[simp] theorem standing_nil : standing [] = 0 := rfl

theorem standing_concat (ls : List Lexeme) (l : Lexeme) :
    standing (ls ++ [l]) = if l.width = 0 then standing ls + 1 else 0 := by
  rw [standing, List.reverse_append, List.reverse_singleton, List.singleton_append,
    List.takeWhile_cons]
  by_cases h : l.width = 0
  · rw [if_pos (by simpa using h), if_pos h, List.length_cons, standing]
  · rw [if_neg (by simpa using h), if_neg h, List.length_nil]

theorem standing_concat_le (ls : List Lexeme) (l : Lexeme) :
    standing (ls ++ [l]) ≤ standing ls + 1 := by
  rw [standing_concat]
  split
  · exact Nat.le_refl _
  · exact Nat.zero_le _

end Lexeme

/-! ## Walks -/

namespace Grammar

open Lexeme (covered standing)

/-- The rules that may come after some lexemes. -/
def reached (g : Grammar) (start : List Rule) (ls : List Lexeme) : List Rule :=
  match ls.getLast? with
  | none => start
  | some l => g.followers l.rule

theorem reached_concat (g : Grammar) (start : List Rule) (ls : List Lexeme) (l : Lexeme) :
    g.reached start (ls ++ [l]) = g.followers l.rule := by
  rw [reached, List.getLast?_concat]

/-- The lexemes are what is found in a text by taking, again and again, the first rule that
matches among those that may come next. -/
inductive Walk (g : Grammar) (source : List Char) (start : List Rule) : List Lexeme → Prop
  | nil : Walk g source start []
  | concat {ls : List Lexeme} {rule : Rule} {width : Nat} (before : Walk g source start ls)
      (inside : covered ls < source.length)
      (first : Scan.firstMatch (g.reached start ls) source (covered ls) = some (rule, width)) :
      Walk g source start (ls ++ [⟨rule, covered ls, width⟩])

variable {g : Grammar} {source : List Char} {start : List Rule} {ls : List Lexeme}

/-- A walk stays inside the text. -/
theorem Walk.covered_le (h : g.Walk source start ls) : covered ls ≤ source.length := by
  cases h with
  | nil => exact Nat.zero_le _
  | @concat ls rule width before inside first =>
    have hwidth := rule.pattern.width?_le _ _ _ (Scan.firstMatch_mem first).2
    rw [List.length_drop] at hwidth
    rw [Lexeme.covered_concat]
    simp only
    omega

theorem Walk.mem_values (hstart : g.entryRules = .ok start) {rule : Rule}
    (h : rule ∈ g.reached start ls) : rule ∈ g.rules.values := by
  rw [reached] at h
  split at h
  · exact mem_values_of_mem_entryRules hstart h
  · exact mem_values_of_mem_followers h

end Grammar

/-! ## The scan after a walk -/

namespace Scan

open Lexeme (covered standing)

variable {task : ScanTask} {start : List Rule} {ls : List Lexeme}

/-- Whether the tokens of a lexeme are in the result. -/
def keeps (keepIgnored : Bool) (l : Lexeme) : Bool := keepIgnored || !l.rule.ignore

/-- A scan that has found the given lexemes. -/
def after (task : ScanTask) (start : List Rule) (ls : List Lexeme) : Scan where
  index := covered ls
  stalled := standing ls
  reachable := task.grammar.reached start ls
  last := ls.getLast?.map Lexeme.rule
  emitted := (Lexeme.tokens task.source.toList (ls.filter (keeps task.keepIgnored))).reverse

/-- What comes after some lexemes: one more, or the end of the scan. -/
def advance (task : ScanTask) (start : List Rule) (ls : List Lexeme) :
    Except ScanError Unit ⊕ Lexeme :=
  let source := task.source.toList
  let reachable := task.grammar.reached start ls
  if covered ls < source.length then
    match firstMatch reachable source (covered ls) with
    | none => .inl (.error (.lex ((after task start ls).stuck task)))
    | some (rule, width) =>
      if width = 0 ∧ task.limit < (standing ls + 1 : Nat) then
        .inl (.error (.grammar (.stalled rule.name task.limit (covered ls))))
      else .inr ⟨rule, covered ls, width⟩
  else if ls.getLast?.any (!·.rule.final) then
    .inl (.error (.lex ⟨.unexpectedEnd (reachable.map (·.name)), covered ls, task.source⟩))
  else .inl (.ok ())

theorem tokens_filter_concat (source : List Char) (keep : Bool) (ls : List Lexeme) (l : Lexeme) :
    Lexeme.tokens source ((ls ++ [l]).filter (keeps keep))
      = if keeps keep l then Lexeme.tokens source (ls.filter (keeps keep))
            ++ [l.token source (Lexeme.tokens source (ls.filter (keeps keep))).length]
        else Lexeme.tokens source (ls.filter (keeps keep)) := by
  rw [List.filter_append]
  by_cases hk : keeps keep l = true
  · rw [if_pos hk, List.filter_cons_of_pos hk, List.filter_nil, Lexeme.tokens_concat,
      Lexeme.length_tokens]
  · rw [if_neg hk, List.filter_cons_of_neg hk, List.filter_nil, List.append_nil]

/-- Without a hook, a match adds its lexeme. -/
theorem next_after {rule : Rule} (h : rule.hook = none) (width : Nat) :
    (after task start ls).next task rule width
      = after task start (ls ++ [⟨rule, covered ls, width⟩]) := by
  have hstop : ((covered ls + width : Nat) : Int) = (covered ls : Nat) ↔ width = 0 := by omega
  rw [next_of_hook_eq_none h, after, after, Grammar.reached_concat, List.getLast?_concat,
    Lexeme.covered_concat, Lexeme.standing_concat, tokens_filter_concat]
  simp only [Int.toNat_natCast, hstop, List.length_reverse, Option.map_some, Scan.mk.injEq,
    true_and]
  rw [apply_ite List.reverse, List.reverse_append, List.reverse_singleton, List.singleton_append]
  rfl

/-- **A round is a step of the walk.** -/
theorem turn_after (hg : task.grammar.Hookless) (hstart : task.grammar.entryRules = .ok start) :
    (after task start ls).turn task
      = match advance task start ls with
        | .inl result => .inl (result.map fun _ =>
            Lexeme.tokens task.source.toList (ls.filter (keeps task.keepIgnored)))
        | .inr l => .inr (after task start (ls ++ [l])) := by
  have hindex : (after task start ls).index < task.source.toList.length ↔
      covered ls < task.source.toList.length := Int.ofNat_lt
  rw [advance]
  by_cases hi : covered ls < task.source.toList.length
  · rw [if_pos hi]
    cases hmatch : firstMatch (task.grammar.reached start ls) task.source.toList (covered ls) with
    | none => exact turn_stuck (hindex.2 hi) hmatch
    | some found =>
      obtain ⟨rule, width⟩ := found
      have hhook := hg rule (Grammar.Walk.mem_values hstart (firstMatch_mem hmatch).1)
      rw [turn_match (hindex.2 hi) hmatch, next_after hhook]
      have hstop : (after task start (ls ++ [⟨rule, covered ls, width⟩])).index
          = (after task start ls).index ↔ width = 0 := by
        simp only [after, Lexeme.covered_concat]
        omega
      have hstalled (hw : width = 0) :
          (after task start (ls ++ [⟨rule, covered ls, width⟩])).stalled = standing ls + 1 := by
        simp only [after, Lexeme.standing_concat, if_pos hw]
      -- The scan counts in its state, the walk by looking back; the two counts are the same.
      by_cases hlimit : width = 0 ∧ task.limit < (standing ls + 1 : Nat)
      · rw [if_pos ⟨hstop.2 hlimit.1, by rw [hstalled hlimit.1]; exact hlimit.2⟩]
        simp only
        rw [if_pos hlimit]
        rfl
      · rw [if_neg fun h => hlimit ⟨hstop.1 h.1, by rw [← hstalled (hstop.1 h.1)]; exact h.2⟩]
        simp only
        rw [if_neg hlimit]
  · rw [if_neg hi, turn_end (hi ∘ hindex.1), finish]
    simp only [after, Option.any_map, List.reverse_reverse]
    by_cases hlast : ls.getLast?.any (!·.rule.final) = true
    · rw [if_pos hlast, if_pos hlast]
      rfl
    · rw [if_neg hlast, if_neg hlast]
      rfl

/-- A lexeme that comes next goes on with a walk. -/
theorem advance_eq_inr {l : Lexeme} (h : advance task start ls = .inr l)
    (hwalk : task.grammar.Walk task.source.toList start ls) :
    task.grammar.Walk task.source.toList start (ls ++ [l]) ∧ (l.width = 0 →
      (standing ls + 1 : Nat) ≤ task.limit) := by
  rw [advance] at h
  split at h
  · next hi =>
    split at h
    · cases h
    · next rule width hmatch =>
      split at h
      · cases h
      · next hlimit =>
        obtain rfl := Sum.inr.inj h
        exact ⟨hwalk.concat hi hmatch, fun hw => by simp only at hw; omega⟩
  · split at h <;> cases h

/-- A scan that is over well has gone through the whole text, and its last rule may be the last. -/
theorem advance_eq_ok (h : advance task start ls = .inl (.ok ())) :
    task.source.toList.length ≤ covered ls ∧ ∀ l ∈ ls.getLast?, l.rule.final = true := by
  rw [advance] at h
  split at h
  · split at h
    · cases h
    · split at h <;> cases h
  · next hi =>
    refine ⟨by omega, fun l hl => ?_⟩
    rw [Option.mem_def.1 hl] at h
    simpa using h

theorem advance_of_end (hend : task.source.toList.length ≤ covered ls)
    (hfinal : ∀ rule ∈ ls.getLast?.map Lexeme.rule, rule.final = true) :
    advance task start ls = .inl (.ok ()) := by
  have hlast : ls.getLast?.any (!·.rule.final) = false := by
    cases hl : ls.getLast? with
    | none => rfl
    | some l => simp [hfinal l.rule (by simp [hl])]
  rw [advance, if_neg (Nat.not_lt.2 hend), hlast]
  rfl

/-- Where a scan fails, it is at an offset at which none of the rules matches that it names, or at
the end of the text after a rule that may not be the last. -/
theorem advance_eq_lex {e : LexError}
    (h : advance task start ls = .inl (.error (.lex e))) :
    e.index = covered ls ∧
      (∀ name ∈ e.expected, ∃ rule ∈ task.grammar.reached start ls, rule.name = name) ∧
      (covered ls < task.source.toList.length ∧
          firstMatch (task.grammar.reached start ls) task.source.toList (covered ls) = none ∨
        task.source.toList.length ≤ covered ls ∧ ∃ l ∈ ls.getLast?, l.rule.final = false) := by
  have hnames : ∀ name ∈ (task.grammar.reached start ls).map (·.name),
      ∃ rule ∈ task.grammar.reached start ls, rule.name = name := fun _ => List.mem_map.1
  rw [advance] at h
  split at h
  · next inside =>
    split at h
    · next hnone =>
      obtain rfl : _ = e := ScanError.lex.inj (Except.error.inj (Sum.inl.inj h))
      refine ⟨rfl, fun name hname => hnames name ?_, .inl ⟨inside, hnone⟩⟩
      rwa [expected_stuck] at hname
    · split at h <;> cases h
  · next hend =>
    split at h
    · next hlast =>
      obtain rfl : _ = e := ScanError.lex.inj (Except.error.inj (Sum.inl.inj h))
      obtain ⟨l, hl, hfinal⟩ := (Option.any_eq_true _ _).1 hlast
      exact ⟨rfl, hnames, .inr ⟨Nat.not_lt.1 hend, l, hl, by simpa using hfinal⟩⟩
    · cases h

end Scan

/-! ## Where a scan ends -/

namespace Grammar

open Lexeme (covered standing)

variable {g : Grammar} {source : String} {limit : Int} {start : List Rule} {ls : List Lexeme}

/-- More rounds than this are not needed after some lexemes: each match either takes something
off the text or off the count of empty matches that are still allowed. -/
def roundsLeft (source : String) (limit : Int) (ls : List Lexeme) : Nat :=
  (source.toList.length - covered ls) * (limit.toNat + 2) + (limit.toNat + 1 - standing ls)

/-- The rounds of a scan are enough from the beginning. -/
theorem roundsLeft_nil :
    roundsLeft source limit [] < (source.toList.length + 1) * (limit.toNat + 2) := by
  rw [roundsLeft, Nat.add_mul, Lexeme.covered_nil, Lexeme.standing_nil, Nat.sub_zero]
  omega

theorem roundsLeft_concat {l : Lexeme} (hcovered : covered (ls ++ [l]) ≤ source.toList.length)
    (hstanding : l.width = 0 → (standing ls + 1 : Nat) ≤ limit) :
    roundsLeft source limit (ls ++ [l]) < roundsLeft source limit ls := by
  rw [roundsLeft, roundsLeft, Lexeme.standing_concat]
  rw [Lexeme.covered_concat] at hcovered ⊢
  by_cases hw : l.width = 0
  · have := hstanding hw
    rw [if_pos hw, hw, Nat.add_zero]
    omega
  · rw [if_neg hw]
    obtain ⟨gap, hgap⟩ : ∃ gap, source.toList.length - covered ls = gap + l.width :=
      ⟨source.toList.length - (covered ls + l.width), by omega⟩
    have hless : source.toList.length - (covered ls + l.width) = gap := by omega
    have hone : 1 * (limit.toNat + 2) ≤ l.width * (limit.toNat + 2) :=
      Nat.mul_le_mul_right _ (by omega)
    rw [hgap, hless, Nat.add_mul]
    omega

/-- **Every scan comes to an end**, and it ends in the same way whether ignored tokens are kept or
not. -/
theorem exists_walk (hg : g.Hookless) (hstart : g.entryRules = .ok start) {n : Nat}
    (hwalk : g.Walk source.toList start ls) (hn : roundsLeft source limit ls < n) :
    ∃ (all : List Lexeme) (result : Except ScanError Unit), g.Walk source.toList start all ∧
      (∀ keep, Scan.advance ⟨g, source, limit, keep⟩ start all = .inl result) ∧
      ∀ keep, scan ⟨g, source, limit, keep⟩ n (Scan.after ⟨g, source, limit, keep⟩ start ls)
        = some (result.map fun _ =>
            Lexeme.tokens source.toList (all.filter (Scan.keeps keep))) := by
  induction n generalizing ls with
  | zero => omega
  | succ n ih =>
    have hturn (keep : Bool) := @Scan.turn_after ⟨g, source, limit, keep⟩ start ls hg hstart
    cases hnext : Scan.advance ⟨g, source, limit, true⟩ start ls with
    | inl result =>
      have hsame (keep : Bool) : Scan.advance ⟨g, source, limit, keep⟩ start ls = .inl result :=
        hnext
      refine ⟨ls, result, hwalk, hsame, fun keep => ?_⟩
      rw [scan, hturn keep, hsame keep]
    | inr l =>
      have hsame (keep : Bool) : Scan.advance ⟨g, source, limit, keep⟩ start ls = .inr l := hnext
      obtain ⟨hwalk', hlimit⟩ := Scan.advance_eq_inr hnext hwalk
      have hless : roundsLeft source limit (ls ++ [l]) < roundsLeft source limit ls :=
        roundsLeft_concat hwalk'.covered_le hlimit
      obtain ⟨all, result, hall, hresult, hscan⟩ := ih hwalk' (by omega)
      refine ⟨all, result, hall, hresult, fun keep => ?_⟩
      rw [scan, hturn keep, hsame keep]
      exact hscan keep

/-- Without hooks, the rounds of a scan depend on the length of the text and on the limit. -/
theorem Hookless.rounds_eq (hg : g.Hookless) (source : String) (limit : Int) (keep : Bool) :
    rounds ⟨g, source, limit, keep⟩ = (source.toList.length + 1) * (limit.toNat + 2) := by
  have hnone : g.rules.values.any (·.hook.isSome) = false := by
    rw [List.any_eq_false]
    intro rule hrule
    simp [hg rule hrule]
  simp [rounds, hnone]

/-- **How a text is read**: the grammar is at fault and nothing is read, or there is a walk from the
beginning that ends in some way, and the tokens are those of its lexemes that are kept. -/
theorem parse_eq_walk (hg : g.Hookless) (source : String) (limit : Int) :
    (∃ defect, ∀ keep, g.parse source limit keep = .error (.grammar defect)) ∨
      ∃ (start : List Rule) (ls : List Lexeme) (result : Except ScanError Unit),
        g.entryRules = .ok start ∧ g.Walk source.toList start ls ∧
        (∀ keep, Scan.advance ⟨g, source, limit, keep⟩ start ls = .inl result) ∧
        ∀ keep, g.parse source limit keep
          = result.map fun _ => Lexeme.tokens source.toList (ls.filter (Scan.keeps keep)) := by
  cases hcheck : g.check with
  | error defect =>
    refine .inl ⟨defect, fun keep => ?_⟩
    rw [parse, hcheck]
    rfl
  | ok u =>
    cases hentry : g.entryRules with
    | error defect =>
      refine .inl ⟨defect, fun keep => ?_⟩
      rw [parse, hcheck, hentry]
      rfl
    | ok start =>
      obtain ⟨ls, result, hwalk, hresult, hscan⟩ := exists_walk hg hentry .nil roundsLeft_nil
      refine .inr ⟨start, ls, result, rfl, hwalk, hresult, fun keep => ?_⟩
      have hend := hscan keep
      rw [parse_eq hcheck hentry, hg.rounds_eq]
      rw [show Scan.after ⟨g, source, limit, keep⟩ start []
        = (⟨0, 0, start, none, []⟩ : Scan) from rfl] at hend
      rw [hend]
      rfl

/-- Without hooks, the rounds are always enough. -/
theorem Hookless.parse_ne_endless (hg : g.Hookless) {keepIgnored : Bool} :
    g.parse source limit keepIgnored ≠ .error .endless := by
  rcases parse_eq_walk hg source limit with ⟨defect, hdefect⟩ | ⟨start, ls, result, -, -, hresult,
    hparse⟩
  · rw [hdefect]
    simp
  · rw [hparse]
    intro h
    cases result with
    | ok u => cases h
    | error failure =>
      obtain rfl : failure = .endless := Except.error.inj h
      have hnext := hresult true
      rw [Scan.advance] at hnext
      split at hnext
      · split at hnext
        · cases hnext
        · split at hnext <;> cases hnext
      · split at hnext <;> cases hnext

/-- **What is wrong with a text is at an offset of it**, or at its end. -/
theorem Hookless.lex_index (hg : g.Hookless) {keepIgnored : Bool} {e : LexError}
    (h : g.parse source limit keepIgnored = .error (.lex e)) :
    0 ≤ e.index ∧ e.index ≤ source.length := by
  rcases parse_eq_walk hg source limit with ⟨defect, hdefect⟩ | ⟨start, ls, result, -, hwalk,
    hresult, hparse⟩
  · rw [hdefect] at h
    cases h
  · rw [hparse] at h
    cases result with
    | ok u => cases h
    | error failure =>
      obtain rfl : failure = .lex e := Except.error.inj h
      have hcovered : covered ls ≤ source.toList.length := hwalk.covered_le
      rw [(Scan.advance_eq_lex (hresult keepIgnored)).1, ← String.length_toList]
      exact ⟨Int.natCast_nonneg _, Int.ofNat_le.2 hcovered⟩

/-- Without hooks, a text is read as its scan ends, whatever the number of rounds. -/
theorem Hookless.parse_of_ends (hg : g.Hookless) (hcheck : g.check = .ok ())
    (hentry : g.entryRules = .ok start) {keepIgnored : Bool}
    {result : Except ScanError (List Token)}
    (h : Ends ⟨g, source, limit, keepIgnored⟩ ⟨0, 0, start, none, []⟩ result) :
    g.parse source limit keepIgnored = result := by
  have hne : g.parse source limit keepIgnored ≠ .error .endless := hg.parse_ne_endless
  rw [parse_eq hcheck hentry] at hne ⊢
  cases hscan : scan ⟨g, source, limit, keepIgnored⟩ (rounds ⟨g, source, limit, keepIgnored⟩)
      ⟨0, 0, start, none, []⟩ with
  | none =>
    rw [hscan] at hne
    exact absurd rfl hne
  | some ended =>
    have hended : Ends ⟨g, source, limit, keepIgnored⟩ ⟨0, 0, start, none, []⟩ ended := ⟨_, hscan⟩
    exact hended.unique h

/-- Without hooks, the rounds are enough to read a text. -/
theorem Hookless.scan_parse (hg : g.Hookless) (hcheck : g.check = .ok ())
    (hentry : g.entryRules = .ok start) {keepIgnored : Bool} :
    scan ⟨g, source, limit, keepIgnored⟩ ((source.toList.length + 1) * (limit.toNat + 2))
        ⟨0, 0, start, none, []⟩
      = some (g.parse source limit keepIgnored) := by
  obtain ⟨ls, result, -, -, hscan⟩ := exists_walk hg hentry .nil (@roundsLeft_nil source limit)
  have hended := hscan keepIgnored
  rw [hg.parse_of_ends hcheck hentry ⟨_, hended⟩]
  exact hended

end Grammar

end Polish
