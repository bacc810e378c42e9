import Polish.Proofs.Grammar.Bisimulation

/-!
# Ways to write down a grammar

What a scan goes through is the graph of rules and their followers, and one graph can be written
down in many ways.  Here are three changes that leave it as it is, for grammars without hooks that
are in order.

* `Grammar.Reordered` — the rules and the next sets come in another order;
* `Grammar.addRule` and `Grammar.addNextSet` — something is added that nothing refers to;
* `Grammar.Inlined` — in next lists, names of next sets are replaced by the members.

For the first two, the grammars agree on all names that the old one refers to
(`Grammar.AgreesWith`), so the rules are followed by the same rules.  For the third, the next lists
themselves differ, and rules that stand under one name are related instead.

`Grammar.parse_rewritten` — each of these changes leaves every reading as it is.

## How the proof goes

Each change has to be shown to leave three things alone: what the entry stands for, the rules that a
rule is followed by, and whether the grammar is in order.  If only names are looked up in other
tables, this is one lemma for both (`AgreesWith`), since a grammar in order refers to nothing that
is not there.  Something added under a new name is never looked up.

A next set in place is another matter.  It has to be known that its members are rules: a member with
the name of a next set would be looked up again once it stands in the list, and stand for more than
before.  This is what `Separate` is for.
-/

set_option autoImplicit false

namespace Polish

open List (Forall₂)

namespace Table

variable {α β : Type}

theorem mem_values_insert {t : Table α} {name : String} {value other : α}
    (h : other ∈ (t.insert name value).values) : other = value ∨ other ∈ t.values := by
  obtain ⟨entry, hentry, rfl⟩ := List.mem_map.1 h
  rcases mem_put hentry with rfl | hold
  · exact .inl rfl
  · exact .inr (List.mem_map.2 ⟨entry, hold, rfl⟩)

/-- Entries that are related one by one are found under the same names. -/
theorem find?_related {rel : α → β → Prop} {t : Table α} {u : Table β}
    (h : Forall₂ (fun entry entry' => entry.1 = entry'.1 ∧ rel entry.2 entry'.2)
      t.entries u.entries) (name : String) : Option.Rel rel (t.find? name) (u.find? name) := by
  rw [find?, find?]
  generalize t.entries = entries, u.entries = entries' at h
  induction h with
  | nil => exact .none
  | @cons entry entry' entries entries' hentry _ ih =>
    obtain ⟨key, value⟩ := entry
    obtain ⟨key', value'⟩ := entry'
    obtain ⟨rfl, hvalue⟩ : key = key' ∧ rel value value' := hentry
    rw [lookup, lookup]
    split
    · exact .some hvalue
    · exact ih

end Table

namespace Grammar

variable {g g' : Grammar} {start : List Rule}

/-- The two grammars read every text alike. -/
def ReadsLike (g g' : Grammar) : Prop :=
  ∀ (source : String) (limit : Int) (keep : Bool),
    g'.parse source limit keep = g.parse source limit keep

/-! ## Names that a grammar refers to -/

/-- A name is mentioned: in a next list, in a next set or as the entry. -/
def Refers (g : Grammar) (name : String) : Prop :=
  name = g.entry ∨ (∃ rule ∈ g.rules.values, name ∈ rule.next) ∨
    ∃ set ∈ g.nextSets.entries, name ∈ set.2

/-- Every name that the first grammar refers to stands for the same in the second one. -/
structure AgreesWith (g g' : Grammar) : Prop where
  entry : g'.entry = g.entry
  rules : ∀ name, g.Refers name → g'.rules.find? name = g.rules.find? name
  nextSets : ∀ name, g.Refers name → g'.nextSets.find? name = g.nextSets.find? name

namespace AgreesWith

theorem ruleNames (h : g.AgreesWith g') {names : List String}
    (hnames : ∀ name ∈ names, g.Refers name) : g'.ruleNames names = g.ruleNames names :=
  List.filterMap_congr fun name hname => h.rules name (hnames name hname)

theorem members (h : g.AgreesWith g') {set : String} {members : List String}
    (hset : g.nextSets.find? set = some members) : g'.ruleNames members = g.ruleNames members :=
  h.ruleNames fun _ hmember => .inr (.inr ⟨_, Table.find?_eq_some_iff.1 hset, hmember⟩)

theorem candidates (h : g.AgreesWith g') {name : String} (hname : g.Refers name) :
    g'.candidates name = g.candidates name := by
  rw [Grammar.candidates, Grammar.candidates, h.rules name hname, h.nextSets name hname]
  cases hset : g.nextSets.find? name with
  | none => rfl
  | some members => rw [Option.getD_some, h.members hset]

theorem followers (h : g.AgreesWith g') {rule : Rule} (hrule : rule ∈ g.rules.values) :
    g'.followers rule = g.followers rule := by
  have hnext : rule.next.flatMap g'.candidates = rule.next.flatMap g.candidates :=
    List.flatMap_congr fun name hname => h.candidates (.inr (.inl ⟨rule, hrule, hname⟩))
  rw [Grammar.followers, Grammar.followers, hnext]

theorem entryRules (h : g.AgreesWith g') : g'.entryRules = g.entryRules := by
  rw [Grammar.entryRules, Grammar.entryRules, h.entry, h.rules _ (.inl rfl),
    h.nextSets _ (.inl rfl)]
  cases hset : g.nextSets.find? g.entry with
  | none => rfl
  | some members => simp only [h.members hset]

/-- The rules of a grammar are related to themselves. -/
theorem bisimulation (h : g.AgreesWith g') (source : List Char) :
    Bisimulation source g g' fun rule rule' => rule ∈ g.rules.values ∧ rule' = rule where
  alike := by
    rintro rule _ ⟨-, rfl⟩
    exact ⟨rfl, fun _ => rfl, rfl, rfl, rfl, rfl⟩
  followers := by
    rintro rule _ ⟨hrule, rfl⟩
    rw [h.followers hrule]
    exact List.forall₂_same.2 fun follower hfollower =>
      ⟨mem_values_of_mem_followers hfollower, rfl⟩

theorem readsLike (h : g.AgreesWith g') (hg : g.Hookless) (hcheck : g.check = .ok ())
    (hcheck' : g'.check = .ok ()) (hentry : g.entryRules = .ok start) : g.ReadsLike g' :=
  fun source limit keep =>
    hg.parse_bisimilar (h.bisimulation source.toList) hcheck hcheck' hentry
      (h.entryRules.trans hentry)
      (List.forall₂_same.2 fun _ hrule => ⟨mem_values_of_mem_entryRules hentry hrule, rfl⟩)
      limit keep

end AgreesWith

/-! ### Another order -/

/-- The second grammar has the rules and next sets of the first one in some order. -/
structure Reordered (g g' : Grammar) : Prop where
  entry : g'.entry = g.entry
  rules : g.rules.entries.Perm g'.rules.entries
  nextSets : g.nextSets.entries.Perm g'.nextSets.entries

theorem Reordered.agreesWith (h : g.Reordered g') : g.AgreesWith g' where
  entry := h.entry
  rules name _ := (Table.find?_perm h.rules name).symm
  nextSets name _ := (Table.find?_perm h.nextSets name).symm

theorem Reordered.check_ok (h : g.Reordered g') (hcheck : g.check = .ok ()) :
    g'.check = .ok () := by
  obtain ⟨hsets, hrules⟩ := check_eq_ok_iff.1 hcheck
  refine check_eq_ok_iff.2 ⟨fun set hset member hmember => ?_, fun rule hrule name hname => ?_⟩
  · have hold := hsets set (h.nextSets.mem_iff.2 hset) member hmember
    rwa [Table.contains, ← Table.find?_perm h.rules]
  · have hold : rule ∈ g.rules.values := (h.rules.map Prod.snd).mem_iff.2 hrule
    rw [h.agreesWith.candidates (.inr (.inl ⟨rule, hold, hname⟩))]
    exact hrules rule hold name hname

/-! ### Something that nothing refers to -/

variable {rule : Rule} {name : String} {members : List String}

theorem agreesWith_addRule (h : ¬ g.Refers rule.name) : g.AgreesWith (g.addRule rule) where
  entry := rfl
  rules other hother := by
    have hne : rule.name ≠ other := fun heq => h (heq ▸ hother)
    rw [addRule, Table.find?_insert, if_neg hne]
  nextSets _ _ := rfl

theorem check_addRule (h : ¬ g.Refers rule.name) (hcheck : g.check = .ok ())
    (hnext : ∀ name ∈ rule.next, (g.addRule rule).candidates name ≠ []) :
    (g.addRule rule).check = .ok () := by
  obtain ⟨hsets, hrules⟩ := check_eq_ok_iff.1 hcheck
  refine check_eq_ok_iff.2 ⟨fun set hset member hmember => ?_, fun other hother name hname => ?_⟩
  · have hold := hsets set hset member hmember
    rwa [Table.contains, (agreesWith_addRule h).rules member (.inr (.inr ⟨set, hset, hmember⟩))]
  · rcases Table.mem_values_insert hother with rfl | hother
    · exact hnext name hname
    · rw [(agreesWith_addRule h).candidates (.inr (.inl ⟨other, hother, hname⟩))]
      exact hrules other hother name hname

theorem agreesWith_addNextSet (h : ¬ g.Refers name) : g.AgreesWith (g.addNextSet name members) where
  entry := rfl
  rules _ _ := rfl
  nextSets other hother := by
    have hne : name ≠ other := fun heq => h (heq ▸ hother)
    rw [addNextSet, Table.find?_insert, if_neg hne]

theorem check_addNextSet (h : ¬ g.Refers name) (hcheck : g.check = .ok ())
    (hmembers : ∀ member ∈ members, g.rules.contains member = true) :
    (g.addNextSet name members).check = .ok () := by
  obtain ⟨hsets, hrules⟩ := check_eq_ok_iff.1 hcheck
  refine check_eq_ok_iff.2 ⟨fun set hset member hmember => ?_, fun other hother next hnext => ?_⟩
  · rcases Table.mem_put hset with rfl | hold
    · exact hmembers member hmember
    · exact hsets set hold member hmember
  · rw [(agreesWith_addNextSet h).candidates (.inr (.inl ⟨other, hother, hnext⟩))]
    exact hrules other hother next hnext

/-! ## Next sets in place -/

/-- Some names of next sets in a list are replaced by the members. -/
inductive Inlining (g : Grammar) : List String → List String → Prop
  | nil : Inlining g [] []
  | keep (name : String) {names names' : List String} (rest : Inlining g names names') :
    Inlining g (name :: names) (name :: names')
  | inline {set : String} {members names names' : List String}
    (found : g.nextSets.find? set = some members) (rest : Inlining g names names') :
    Inlining g (set :: names) (members ++ names')

/-- The second rule is the first one with some names of next sets replaced in its next list. -/
def InlinedRule (g : Grammar) (rule rule' : Rule) : Prop :=
  ∃ next, g.Inlining rule.next next ∧ rule' = { rule with next }

/-- The second grammar is the first one with some names of next sets replaced in next lists. -/
structure Inlined (g g' : Grammar) : Prop where
  entry : g'.entry = g.entry
  nextSets : g'.nextSets = g.nextSets
  rules : Forall₂ (fun entry entry' => entry.1 = entry'.1 ∧ g.InlinedRule entry.2 entry'.2)
    g.rules.entries g'.rules.entries

/-- No name stands for both a rule and a next set. -/
def Separate (g : Grammar) : Prop :=
  ∀ name, g.rules.find? name = none ∨ g.nextSets.find? name = none

theorem Inlining.mem {names names' : List String} (h : g.Inlining names names') {name : String}
    (hname : name ∈ names') :
    name ∈ names ∨ ∃ set members, g.nextSets.find? set = some members ∧ name ∈ members := by
  induction h with
  | nil => cases hname
  | keep first _ ih =>
    rcases List.mem_cons.1 hname with rfl | hname
    · exact .inl List.mem_cons_self
    · exact (ih hname).imp_left (List.mem_cons_of_mem first)
  | @inline set members _ _ found _ ih =>
    rcases List.mem_append.1 hname with hname | hname
    · exact .inr ⟨set, members, found, hname⟩
    · exact (ih hname).imp_left (List.mem_cons_of_mem set)

/-- Names of rules alone stand for these rules. -/
theorem flatMap_candidates_of_rules {names : List String}
    (h : ∀ name ∈ names, g.nextSets.find? name = none) :
    names.flatMap g.candidates = g.ruleNames names := by
  rw [ruleNames, List.filterMap_eq_flatMap_toList]
  refine List.flatMap_congr fun name hname => ?_
  rw [candidates, h name hname]
  exact List.append_nil _

/-- The name of a rule stands for something. -/
theorem candidates_ne_nil {name : String} (h : g.rules.contains name = true) :
    g.candidates name ≠ [] := by
  obtain ⟨rule, hrule⟩ := Option.isSome_iff_exists.1 h
  rw [candidates, hrule]
  exact List.cons_ne_nil rule _

/-- A member of a next set is a rule and no next set. -/
theorem Separate.nextSets_member (hsep : g.Separate) (hcheck : g.check = .ok ()) {set : String}
    {members : List String} (hset : g.nextSets.find? set = some members) {member : String}
    (hmember : member ∈ members) : g.nextSets.find? member = none := by
  have hrule : g.rules.contains member = true :=
    (check_eq_ok_iff.1 hcheck).1 _ (Table.find?_eq_some_iff.1 hset) member hmember
  refine (hsep member).resolve_left fun hnone => ?_
  rw [Table.contains, hnone] at hrule
  cases hrule

namespace Inlined

variable (h : g.Inlined g')

include h

theorem corresponds : g.Corresponds g.InlinedRule g' :=
  ⟨h.entry, h.nextSets, Table.find?_related h.rules⟩

/-- The lists stand for related rules: a next set for its members, and so do the members. -/
theorem flatMap_candidates_related (hsep : g.Separate) (hcheck : g.check = .ok ())
    {names names' : List String} (hnames : g.Inlining names names') :
    Forall₂ g.InlinedRule (names.flatMap g.candidates) (names'.flatMap g'.candidates) := by
  induction hnames with
  | nil => exact .nil
  | keep name _ ih =>
    rw [List.flatMap_cons, List.flatMap_cons]
    exact List.rel_append (h.corresponds.candidates_related name) ih
  | @inline set members names names' found _ ih =>
    have hset : g.candidates set = g.ruleNames members := by
      have hnone : g.rules.find? set = none :=
        (hsep set).resolve_right fun hnone => by simp [hnone] at found
      rw [candidates, hnone, found]
      rfl
    have hmembers : members.flatMap g'.candidates = g'.ruleNames members :=
      flatMap_candidates_of_rules fun member hmember => by
        rw [h.nextSets]
        exact hsep.nextSets_member hcheck found hmember
    rw [List.flatMap_cons, List.flatMap_append, hset, hmembers]
    exact List.rel_append (h.corresponds.ruleNames_related members) ih

theorem bisimulation (hsep : g.Separate) (hcheck : g.check = .ok ()) (source : List Char) :
    Bisimulation source g g' g.InlinedRule where
  alike := by
    rintro rule _ ⟨next, -, rfl⟩
    exact ⟨rfl, fun _ => rfl, rfl, rfl, rfl, rfl⟩
  followers := by
    rintro rule _ ⟨next, hnext, rfl⟩
    refine foldl_addOnce_related ?_ (h.flatMap_candidates_related hsep hcheck hnext) .nil
    rintro r _ ⟨-, -, rfl⟩
    rfl

theorem check_ok (hcheck : g.check = .ok ()) : g'.check = .ok () := by
  obtain ⟨hsets, hrules⟩ := check_eq_ok_iff.1 hcheck
  refine h.corresponds.check_ok hcheck ?_
  rintro rule hrule _ ⟨next, hnext, rfl⟩ name hname
  rcases hnext.mem hname with hname | ⟨set, members, hset, hmember⟩
  · exact hrules rule hrule name hname
  · exact candidates_ne_nil (hsets _ (Table.find?_eq_some_iff.1 hset) name hmember)

theorem readsLike (hg : g.Hookless) (hcheck : g.check = .ok ()) (hentry : g.entryRules = .ok start)
    (hsep : g.Separate) : g.ReadsLike g' := by
  intro source limit keep
  obtain ⟨start', hentry', hstart⟩ := h.corresponds.entryRules_related hentry
  exact hg.parse_bisimilar (h.bisimulation hsep hcheck source.toList) hcheck (h.check_ok hcheck)
    hentry hentry' hstart limit keep

end Inlined

/-- **What is read depends on the graph of rules and followers only.**  For a grammar without hooks
that is in order and in which no name stands for both a rule and a next set, every text is read
alike, the same tokens or the same failure, when

* its rules and next sets come in another order;
* a rule is added, under a name that the grammar does not refer to, and all that it lists stands
  for something;
* a next set of its rules is added under such a name;
* in next lists, names of next sets are replaced by the members of the set. -/
theorem parse_rewritten (hg : g.Hookless) (hcheck : g.check = .ok ())
    (hentry : g.entryRules = .ok start) (hsep : g.Separate) :
    (∀ g', g.Reordered g' → g.ReadsLike g') ∧
      (∀ rule, ¬ g.Refers rule.name →
        (∀ name ∈ rule.next, (g.addRule rule).candidates name ≠ []) →
          g.ReadsLike (g.addRule rule)) ∧
      (∀ name members, ¬ g.Refers name →
        (∀ member ∈ members, g.rules.contains member = true) →
          g.ReadsLike (g.addNextSet name members)) ∧
      ∀ g', g.Inlined g' → g.ReadsLike g' :=
  ⟨fun _ h => h.agreesWith.readsLike hg hcheck (h.check_ok hcheck) hentry,
    fun _ h hnext => (agreesWith_addRule h).readsLike hg hcheck
      (check_addRule h hcheck hnext) hentry,
    fun _ _ h hmembers => (agreesWith_addNextSet h).readsLike hg hcheck
      (check_addNextSet h hcheck hmembers) hentry,
    fun _ h => h.readsLike hg hcheck hentry hsep⟩

/-- Numbers with signs between them: the signs as a next set or in place, the rules from the front
or from the back, and with a rule for blanks and a set of all rules that lead nowhere. -/
theorem parse_rewritten_signs :
    ∃ (g back inPlace : Grammar) (blank : Rule),
      (g.Hookless ∧ g.check = .ok () ∧ (∃ start, g.entryRules = .ok start) ∧ g.Separate) ∧
        (g.Reordered back ∧ g.ReadsLike back) ∧
        (¬ g.Refers blank.name ∧ g.ReadsLike (g.addRule blank)) ∧
        (¬ g.Refers "all" ∧ g.ReadsLike (g.addNextSet "all" g.rules.keys)) ∧
        g.Inlined inPlace ∧ g.ReadsLike inPlace := by
  let rule (name : String) (regex : Regex) (next : List String) : Rule :=
    ⟨name, Pattern.mk regex false, next, none, false, none, true⟩
  let digits := rule "digits" (.atLeastOne (.category .digit)) ["signs"]
  let plus := rule "plus" (.char '+') ["digits"]
  let minus := rule "minus" (.char '-') ["digits"]
  let blank := rule "blank" (.category .blank) ["blank", "signs"]
  let sets := [("signs", ["plus", "minus"])]
  let g : Grammar := .ofLists [digits, plus, minus] sets "digits"
  let back : Grammar := .ofLists [minus, plus, digits] sets "digits"
  let inPlace : Grammar :=
    .ofLists [{ digits with next := ["plus", "minus"] }, plus, minus] sets "digits"
  have hvalues : g.rules.values = [digits, plus, minus] := rfl
  have hg : g.Hookless := by
    rw [Hookless, hvalues]
    simp [digits, plus, minus, rule]
  have hsep : g.Separate := by
    intro name
    by_cases hname : name = "signs"
    · subst hname
      exact .inl rfl
    · exact .inr (Table.find?_eq_none_iff.2 fun h => hname (List.mem_singleton.1 h))
  have hunused (name : String) (hname : name ∉ ["digits", "signs", "plus", "minus"]) :
      ¬ g.Refers name := by
    have hentries : g.nextSets.entries = sets := rfl
    rw [Refers, hvalues, hentries, show g.entry = "digits" from rfl]
    simp only [List.mem_cons, List.not_mem_nil, or_false, not_or] at hname
    simp [digits, plus, minus, rule, sets, hname]
  have hback : g.Reordered back :=
    ⟨rfl, (List.reverse_perm _).symm, .refl _⟩
  have hinPlace : g.Inlined inPlace := by
    refine ⟨rfl, rfl, .cons ⟨rfl, _, .inline rfl .nil, rfl⟩ ?_⟩
    exact .cons ⟨rfl, _, .keep _ .nil, rfl⟩ (.cons ⟨rfl, _, .keep _ .nil, rfl⟩ .nil)
  have hblank : ¬ g.Refers blank.name := hunused "blank" (by decide)
  have hall : ¬ g.Refers "all" := hunused "all" (by decide)
  have hresolves : ∀ name ∈ blank.next, (g.addRule blank).candidates name ≠ [] := by
    intro name hname
    simp only [blank, rule, List.mem_cons, List.not_mem_nil, or_false] at hname
    rcases hname with rfl | rfl <;> exact List.cons_ne_nil _ _
  obtain ⟨horder, hrule, hset, hinline⟩ := parse_rewritten hg rfl rfl hsep
  exact ⟨g, back, inPlace, blank, ⟨hg, rfl, ⟨_, rfl⟩, hsep⟩, ⟨hback, horder back hback⟩,
    ⟨hblank, hrule blank hblank hresolves⟩, ⟨hall, hset "all" _ hall (by decide)⟩,
    hinPlace, hinline inPlace hinPlace⟩

end Grammar

end Polish
