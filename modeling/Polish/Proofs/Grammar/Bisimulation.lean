import Mathlib.Data.List.Forall2
import Polish.Proofs.Grammar.Walk

/-!
# Grammars that a scan cannot tell apart

A scan asks a rule for the length of its match, for what its tokens look like and for the rules that
may follow it.  It never asks under which name the rule stands in the grammar or how its next list
was written down.

* `Rule.Alike` — two rules answer alike in a text, but for what follows;
* `Grammar.Bisimulation` — a relation between the rules of two grammars under which related rules
  are alike and are followed by related rules, in the same order;
* `Scan.Related.turn` — related scans do the same in a round, and `Grammar.Bisimulation.scan_eq` in
  any number of them;
* `Grammar.Hookless.parse_bisimilar` — so if two grammars begin with related rules, they read the
  text alike.

`Grammar.check_eq_ok_iff` says when a grammar is in order, without saying which name is found first.

## Why a relation

Two grammars may have the same rules and still differ in all of them as records, for the next list
is a part of a rule: it can name a next set or its members.  What a scan asks for is the list of
rules that follow, with the names looked up and each rule taken once, and these are not the same
rules either but those of the other grammar.  So the rules are related, and it is asked that related
rules are followed by related ones; nothing is said of the names in the lists.
-/

set_option autoImplicit false

namespace Polish

open List (Forall₂)

/-! ## Related rules -/

/-- Two rules answer alike in a text, but for what may follow them. -/
structure Rule.Alike (source : List Char) (r r' : Rule) : Prop where
  name : r.name = r'.name
  width : ∀ offset, r.pattern.width? source offset = r'.pattern.width? source offset
  hook : r.hook = r'.hook
  ignore : r.ignore = r'.ignore
  kind : r.kind = r'.kind
  final : r.final = r'.final

namespace Grammar

/-- Related rules are alike in a text and are followed by related rules. -/
structure Bisimulation (source : List Char) (g g' : Grammar) (rel : Rule → Rule → Prop) : Prop where
  alike : ∀ {r r'}, rel r r' → r.Alike source r'
  followers : ∀ {r r'}, rel r r' → Forall₂ rel (g.followers r) (g'.followers r')

section

variable {rel : Rule → Rule → Prop} {rs rs' found found' : List Rule}

theorem any_name_related (hname : ∀ r r', rel r r' → r.name = r'.name) (h : Forall₂ rel rs rs')
    (name : String) : rs.any (·.name == name) = rs'.any (·.name == name) := by
  induction h with
  | nil => rfl
  | cons hr _ ih => rw [List.any_cons, List.any_cons, ih, hname _ _ hr]

theorem map_name_related (hname : ∀ r r', rel r r' → r.name = r'.name) (h : Forall₂ rel rs rs') :
    rs.map (·.name) = rs'.map (·.name) := by
  induction h with
  | nil => rfl
  | cons hr _ ih => rw [List.map_cons, List.map_cons, ih, hname _ _ hr]

/-- Taking each rule once keeps lists related, since related rules have one name. -/
theorem foldl_addOnce_related (hname : ∀ r r', rel r r' → r.name = r'.name)
    (h : Forall₂ rel rs rs') (hfound : Forall₂ rel found found') :
    Forall₂ rel (rs.foldl addOnce found) (rs'.foldl addOnce found') := by
  induction h generalizing found found' with
  | nil => exact hfound
  | @cons r r' rs rs' hr _ ih =>
    refine ih ?_
    rw [addOnce, addOnce, hname _ _ hr, any_name_related hname hfound]
    split
    · exact hfound
    · exact List.rel_append hfound (.cons hr .nil)

end

/-! ## Grammars in order -/

variable {g g' : Grammar}

/-- **A grammar is in order** if the members of its next sets are rules and each name that a rule
lists stands for some rule. -/
theorem check_eq_ok_iff :
    g.check = .ok () ↔
      (∀ set ∈ g.nextSets.entries, ∀ member ∈ set.2, g.rules.contains member = true) ∧
        ∀ rule ∈ g.rules.values, ∀ name ∈ rule.next, g.candidates name ≠ [] := by
  have hset (set : String × List String) :
      g.setDefect? set = none ↔ ∀ member ∈ set.2, g.rules.contains member = true := by
    rw [setDefect?, Option.map_eq_none_iff, List.find?_eq_none]
    simp
  have hrule (rule : Rule) :
      g.ruleDefect? rule = none ↔ ∀ name ∈ rule.next, g.candidates name ≠ [] := by
    rw [ruleDefect?, Option.map_eq_none_iff, List.find?_eq_none]
    simp
  have hsets : g.nextSets.entries.findSome? g.setDefect? = none
      ↔ ∀ set ∈ g.nextSets.entries, ∀ member ∈ set.2, g.rules.contains member = true := by
    simp only [List.findSome?_eq_none_iff, hset]
  have hrules : g.rules.values.findSome? g.ruleDefect? = none
      ↔ ∀ rule ∈ g.rules.values, ∀ name ∈ rule.next, g.candidates name ≠ [] := by
    simp only [List.findSome?_eq_none_iff, hrule]
  rw [← hsets, ← hrules, check]
  cases g.nextSets.entries.findSome? g.setDefect? with
  | some defect => simp
  | none => cases g.rules.values.findSome? g.ruleDefect? <;> simp

/-! ## Rules that stand under the same names -/

/-- Two grammars have the same entry and the same next sets, and their rules are related name by
name. -/
structure Corresponds (g : Grammar) (rel : Rule → Rule → Prop) (g' : Grammar) : Prop where
  entry : g'.entry = g.entry
  nextSets : g'.nextSets = g.nextSets
  rules : ∀ name, Option.Rel rel (g.rules.find? name) (g'.rules.find? name)

namespace Corresponds

variable {rel : Rule → Rule → Prop} (h : g.Corresponds rel g')

include h

theorem contains_eq (name : String) : g'.rules.contains name = g.rules.contains name := by
  have hrel := h.rules name
  rw [Table.contains, Table.contains]
  generalize g.rules.find? name = found, g'.rules.find? name = found' at hrel
  cases hrel <;> rfl

theorem ruleNames_related (names : List String) :
    Forall₂ rel (g.ruleNames names) (g'.ruleNames names) := by
  have hsame : Forall₂ Eq names names := List.forall₂_refl names
  refine List.rel_filterMap ?_ hsame
  rintro name _ rfl
  exact h.rules name

theorem candidates_related (name : String) :
    Forall₂ rel (g.candidates name) (g'.candidates name) := by
  have htoList {found found' : Option Rule} (hrel : Option.Rel rel found found') :
      Forall₂ rel found.toList found'.toList := by
    cases hrel with
    | none => exact .nil
    | some hrule => exact .cons hrule .nil
  rw [candidates, candidates, h.nextSets]
  exact List.rel_append (htoList (h.rules name)) (h.ruleNames_related _)

theorem exists_rule {rule' : Rule} (hrule' : rule' ∈ g'.rules.values) :
    ∃ rule ∈ g.rules.values, rel rule rule' := by
  obtain ⟨⟨name, _⟩, hentry, rfl⟩ := List.mem_map.1 hrule'
  have hrel := h.rules name
  rw [Table.find?_eq_some_iff.2 hentry] at hrel
  cases hfind : g.rules.find? name with
  | none =>
    rw [hfind] at hrel
    cases hrel
  | some rule =>
    rw [hfind] at hrel
    cases hrel with
    | some hrule => exact ⟨rule, mem_values_of_find? hfind, hrule⟩

theorem check_ok (hcheck : g.check = .ok ())
    (hnext : ∀ rule ∈ g.rules.values, ∀ rule', rel rule rule' →
      ∀ name ∈ rule'.next, g.candidates name ≠ []) : g'.check = .ok () := by
  refine check_eq_ok_iff.2
    ⟨fun set hset member hmember => ?_, fun rule' hrule' name hname hnil => ?_⟩
  · rw [h.contains_eq]
    exact (check_eq_ok_iff.1 hcheck).1 set (h.nextSets ▸ hset) member hmember
  · obtain ⟨rule, hrule, hrel⟩ := h.exists_rule hrule'
    have hcandidates := h.candidates_related name
    rw [hnil, List.forall₂_nil_right_iff] at hcandidates
    exact hnext rule hrule rule' hrel name hname hcandidates

theorem entryRules_related {start : List Rule} (hentry : g.entryRules = .ok start) :
    ∃ start', g'.entryRules = .ok start' ∧ Forall₂ rel start start' := by
  have hrel := h.rules g.entry
  rw [entryRules] at hentry
  rw [entryRules, h.entry, h.nextSets]
  generalize g.rules.find? g.entry = found, g'.rules.find? g.entry = found' at hrel hentry ⊢
  cases hrel with
  | some hrule =>
    obtain rfl := Except.ok.inj hentry
    exact ⟨_, rfl, .cons hrule .nil⟩
  | none =>
    cases hset : g.nextSets.find? g.entry with
    | none =>
      rw [hset] at hentry
      cases hentry
    | some members =>
      rw [hset] at hentry
      obtain rfl := Except.ok.inj hentry
      exact ⟨_, rfl, h.ruleNames_related members⟩

end Corresponds

end Grammar

/-! ## Related scans -/

namespace Scan

variable {source : List Char} {rel : Rule → Rule → Prop} {rs rs' : List Rule}

/-- The first rules that match are related, and their matches are equally long. -/
theorem firstMatch_related (halike : ∀ r r', rel r r' → r.Alike source r')
    (h : Forall₂ rel rs rs') (offset : Nat) :
    Option.Rel (fun found found' => rel found.1 found'.1 ∧ found.2 = found'.2)
      (firstMatch rs source offset) (firstMatch rs' source offset) := by
  induction h with
  | nil => exact .none
  | @cons r r' rs rs' hr _ ih =>
    rw [firstMatch, firstMatch, List.findSome?_cons, List.findSome?_cons,
      (halike r r' hr).width offset]
    cases r'.pattern.width? source offset with
    | some width => exact .some ⟨hr, rfl⟩
    | none => exact ih

variable {task : ScanTask} {g : Grammar} {s s' : Scan} {r r' : Rule}

/-- Two scans have come to the same point, and their rules are related. -/
structure Related (rel : Rule → Rule → Prop) (s s' : Scan) : Prop where
  index : s.index = s'.index
  stalled : s.stalled = s'.stalled
  reachable : Forall₂ rel s.reachable s'.reachable
  last : Option.Rel rel s.last s'.last
  emitted : s.emitted = s'.emitted

theorem Related.hit (h : Related rel s s') (halike : r.Alike source r') (rest : List Char)
    (width : Nat) : Scan.hit source rest s r width = Scan.hit source rest s' r' width := by
  rw [Scan.hit, Scan.hit, h.index, h.emitted, halike.kind, halike.hook]

/-- What a match leads to. -/
theorem Related.next (hrel : Grammar.Bisimulation task.source.toList task.grammar g rel)
    (h : Related rel s s') (hr : rel r r') (width : Nat) :
    Related rel (s.next task r width) (s'.next { task with grammar := g } r' width) := by
  have hhit := h.hit (hrel.alike hr) (s.rest task) width
  have hrest : s'.rest { task with grammar := g } = s.rest task := by rw [rest, rest, h.index]
  rw [Scan.next, Scan.next, hrest, ← hhit]
  exact ⟨rfl, by rw [h.index, h.stalled], hrel.followers hr, .some hr,
    by rw [h.emitted, (hrel.alike hr).ignore]⟩

theorem Related.finish (hrel : Grammar.Bisimulation task.source.toList task.grammar g rel)
    (h : Related rel s s') : s.finish task = s'.finish { task with grammar := g } := by
  have hnames : s.reachable.map (·.name) = s'.reachable.map (·.name) :=
    Grammar.map_name_related (fun _ _ hr => (hrel.alike hr).name) h.reachable
  have hany {last last' : Option Rule} (hlast : Option.Rel rel last last') :
      last.any (!·.final) = last'.any (!·.final) := by
    cases hlast with
    | none => rfl
    | some hr => rw [Option.any_some, Option.any_some, (hrel.alike hr).final]
  rw [Scan.finish, Scan.finish, hnames, hany h.last, h.index, h.emitted]

theorem Related.stuck (hrel : Grammar.Bisimulation task.source.toList task.grammar g rel)
    (h : Related rel s s') : s.stuck task = s'.stuck { task with grammar := g } := by
  have hnames : s.reachable.map (·.name) = s'.reachable.map (·.name) :=
    Grammar.map_name_related (fun _ _ hr => (hrel.alike hr).name) h.reachable
  have hempty : s.reachable.isEmpty = s'.reachable.isEmpty := by
    rw [← List.isEmpty_map, hnames, List.isEmpty_map]
  rw [Scan.stuck, Scan.stuck, hnames, hempty, h.index]

/-- **A round does the same for related scans.** -/
theorem Related.turn (hrel : Grammar.Bisimulation task.source.toList task.grammar g rel)
    (h : Related rel s s') :
    Sum.LiftRel Eq (Related rel) (s.turn task) (s'.turn { task with grammar := g }) := by
  let task' : ScanTask := { task with grammar := g }
  by_cases hi : s.index < task.source.toList.length
  · have hi' : s'.index < task'.source.toList.length := h.index ▸ hi
    have hfirst : Option.Rel (fun found found' => rel found.1 found'.1 ∧ found.2 = found'.2)
        (firstMatch s.reachable task.source.toList s.index.toNat)
        (firstMatch s'.reachable task'.source.toList s'.index.toNat) :=
      h.index ▸ firstMatch_related (fun _ _ hr => hrel.alike hr) h.reachable s.index.toNat
    cases hmatch : firstMatch s.reachable task.source.toList s.index.toNat with
    | none =>
      rw [hmatch] at hfirst
      cases hmatch' : firstMatch s'.reachable task'.source.toList s'.index.toNat with
      | none =>
        rw [turn_stuck hi hmatch, turn_stuck hi' hmatch', h.stuck hrel]
        exact .inl rfl
      | some found =>
        rw [hmatch'] at hfirst
        cases hfirst
    | some found =>
      rw [hmatch] at hfirst
      cases hmatch' : firstMatch s'.reachable task'.source.toList s'.index.toNat with
      | none =>
        rw [hmatch'] at hfirst
        cases hfirst
      | some found' =>
        rw [hmatch'] at hfirst
        obtain ⟨hr, hwidth⟩ := hfirst
        -- Related rules have matched, with the same width, so the scans come to the same offset.
        have hnext : Related rel (s.next task found.1 found.2) (s'.next task' found'.1 found'.2) :=
          hwidth ▸ h.next hrel hr found.2
        rw [turn_match hi hmatch, turn_match hi' hmatch', hnext.index, hnext.stalled, h.index,
          (hrel.alike hr).name]
        split
        · exact .inl rfl
        · exact .inr hnext
  · have hi' : ¬ s'.index < task'.source.toList.length := h.index ▸ hi
    rw [turn_end hi, turn_end hi', h.finish hrel]
    exact .inl rfl

end Scan

namespace Grammar

variable {rel : Rule → Rule → Prop}

theorem Bisimulation.scan_eq {task : ScanTask} {g : Grammar}
    (hrel : Bisimulation task.source.toList task.grammar g rel) (n : Nat) {s s' : Scan}
    (h : s.Related rel s') : scan task n s = scan { task with grammar := g } n s' := by
  induction n generalizing s s' with
  | zero => rfl
  | succ n ih =>
    rw [scan, scan]
    have hturn := h.turn hrel
    generalize s.turn task = round, s'.turn { task with grammar := g } = round' at hturn
    cases hturn with
    | inl hresult => rw [hresult]
    | inr hnext => exact ih hnext

variable {g g' : Grammar} {source : String} {start start' : List Rule}

/-- **Grammars that a scan cannot tell apart read a text alike**, if no rule of the first one has a
hook.  The second one may have hooks at rules that the scan never comes to. -/
theorem Hookless.parse_bisimilar (hg : g.Hookless) (hrel : Bisimulation source.toList g g' rel)
    (hcheck : g.check = .ok ()) (hcheck' : g'.check = .ok ()) (hentry : g.entryRules = .ok start)
    (hentry' : g'.entryRules = .ok start') (hstart : Forall₂ rel start start') (limit : Int)
    (keep : Bool) : g'.parse source limit keep = g.parse source limit keep := by
  let task : ScanTask := ⟨g, source, limit, keep⟩
  have hbegin : Scan.Related rel ⟨0, 0, start, none, []⟩ ⟨0, 0, start', none, []⟩ :=
    ⟨rfl, rfl, hstart, .none, rfl⟩
  have hscan : scan task _ ⟨0, 0, start, none, []⟩ = some (g.parse source limit keep) :=
    hg.scan_parse hcheck hentry
  rw [hrel.scan_eq _ hbegin] at hscan
  have henough : (source.toList.length + 1) * (limit.toNat + 2)
      ≤ rounds ⟨g', source, limit, keep⟩ := Nat.le_add_right ..
  rw [parse_eq hcheck' hentry', scan_mono hscan henough, Option.getD_some]

end Grammar

end Polish
