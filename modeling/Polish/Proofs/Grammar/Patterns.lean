import Polish.Proofs.Grammar.Bisimulation
import Polish.Proofs.Grammar.Turns
import Polish.Proofs.Pattern.Symbols

/-!
# Grammars that differ in their patterns

A scan asks a pattern one thing only: how long its match is at some offset of the text.  So if two
grammars have the same rules but for their patterns, and each pattern of the one matches in this
text as the pattern of that rule in the other, the text is read alike: the same tokens, or the same
failure at the same place.

* `Grammar.withPatterns f` is a grammar with the pattern `f rule` for every rule;
* `Grammar.bisimulation_withPatterns` — if the new patterns match alike, a scan cannot tell a rule
  from itself with its new pattern;
* `Arithmetic.parse_reading` — so the arithmetic grammar with two sets of symbols, none before a
  longer one, reads a text alike if the sets do not differ in symbols that occur in it.

## How the proof goes

The rules of both grammars stand under the same names and are followed by rules of the same names,
so the relation between a rule and itself with its other pattern is a bisimulation, if the patterns
agree in the text.  For symbols this is where the text comes in: a choice between them takes the
longest one that the rest of the text begins with, and whether a symbol is one of those is only
asked of symbols that occur in the text.
-/

set_option autoImplicit false

namespace Polish

/-! ## Other patterns for all rules -/

/-- The rule with another pattern. -/
def Rule.withPattern (f : Rule → Matcher) (rule : Rule) : Rule := { rule with pattern := f rule }

namespace Grammar

variable (f : Rule → Matcher) (g : Grammar)

/-- The grammar with another pattern for each rule. -/
def withPatterns : Grammar := { g with rules := g.rules.mapValues (Rule.withPattern f) }

/-- Each new pattern has the matches of the old one in a text. -/
def MatchesAlike (source : List Char) : Prop :=
  ∀ rule ∈ g.rules.values, ∀ offset,
    (f rule).width? source offset = rule.pattern.width? source offset

/-- A rule of the grammar and the same rule with its other pattern. -/
def Repatterned (rule rule' : Rule) : Prop :=
  rule ∈ g.rules.values ∧ rule' = rule.withPattern f

theorem corresponds_withPatterns : g.Corresponds (g.Repatterned f) (g.withPatterns f) where
  entry := rfl
  nextSets := rfl
  rules name := by
    have hfind : (g.withPatterns f).rules.find? name
        = (g.rules.find? name).map (Rule.withPattern f) := Table.find?_mapValues ..
    rw [hfind]
    cases hrule : g.rules.find? name with
    | none => exact .none
    | some rule => exact .some ⟨mem_values_of_find? hrule, rfl⟩

variable {f g}

theorem bisimulation_withPatterns {source : List Char} (h : g.MatchesAlike f source) :
    Bisimulation source g (g.withPatterns f) (g.Repatterned f) where
  alike := by
    rintro rule _ ⟨hrule, rfl⟩
    exact ⟨rfl, fun offset => (h rule hrule offset).symm, rfl, rfl, rfl, rfl⟩
  followers := by
    rintro rule _ ⟨-, rfl⟩
    refine foldl_addOnce_related ?_ ?_ .nil
    · rintro r _ ⟨-, rfl⟩
      rfl
    · have hsame : List.Forall₂ Eq rule.next rule.next := List.forall₂_refl rule.next
      refine List.rel_flatMap hsame ?_
      rintro name _ rfl
      exact (g.corresponds_withPatterns f).candidates_related name

theorem check_withPatterns (hcheck : g.check = .ok ()) : (g.withPatterns f).check = .ok () := by
  refine (g.corresponds_withPatterns f).check_ok hcheck ?_
  rintro rule hrule _ ⟨-, rfl⟩
  exact (check_eq_ok_iff.1 hcheck).2 rule hrule

/-- **Patterns that match alike read a text alike.** -/
theorem Hookless.parse_withPatterns (hg : g.Hookless) {source : String}
    (h : g.MatchesAlike f source.toList) (hcheck : g.check = .ok ()) {start : List Rule}
    (hentry : g.entryRules = .ok start) (limit : Int) (keepIgnored : Bool) :
    (g.withPatterns f).parse source limit keepIgnored = g.parse source limit keepIgnored := by
  obtain ⟨start', hentry', hstart⟩ := (g.corresponds_withPatterns f).entryRules_related hentry
  exact hg.parse_bisimilar (bisimulation_withPatterns h) hcheck (check_withPatterns hcheck) hentry
    hentry' hstart limit keepIgnored

end Grammar

/-! ## Symbols that do not occur in a text -/

/-- **Two choices between symbols match alike in a text** if they differ in no symbol that it begins
with. -/
theorem Pattern.width?_eq {p p' : Pattern} {symbols symbols' : List String}
    (h : p.Reads symbols) (h' : p'.Reads symbols') {text : List Char}
    (hsymbols : ∀ symbol : String,
      symbol.toList <+: text → (symbol ∈ symbols ↔ symbol ∈ symbols')) :
    p.width? text = p'.width? text := by
  obtain ⟨hsome, hnone⟩ := width?_symbols h text
  obtain ⟨hsome', hnone'⟩ := width?_symbols h' text
  cases hw : p.width? text with
  | none =>
    cases hw' : p'.width? text with
    | none => rfl
    | some width =>
      obtain ⟨symbol, hlongest, -⟩ := hsome' width hw'
      have hmem := (hsymbols symbol hlongest.isPrefix).2 hlongest.mem
      exact (hnone hw symbol hmem hlongest.isPrefix).elim
  | some width =>
    obtain ⟨symbol, hlongest, rfl⟩ := hsome width hw
    have hmem := (hsymbols symbol hlongest.isPrefix).1 hlongest.mem
    cases hw' : p'.width? text with
    | none => exact (hnone' hw' symbol hmem hlongest.isPrefix).elim
    | some width =>
      obtain ⟨symbol', hlongest', rfl⟩ := hsome' width hw'
      have hmem' := (hsymbols symbol' hlongest'.isPrefix).2 hlongest'.mem
      have hle := hlongest.longest symbol' hmem' hlongest'.isPrefix
      have hge := hlongest'.longest symbol hmem hlongest.isPrefix
      rw [Nat.le_antisymm hle hge]

namespace Arithmetic

/-- The operator rule is the only one of its name. -/
theorem rule_of_name {pattern : Pattern} {rule : Rule}
    (hrule : rule ∈ (reading pattern).rules.values) (hname : rule.name = operatorRule) :
    rule = symbols pattern := by
  rw [values_reading] at hrule
  simp only [List.mem_cons, List.not_mem_nil, or_false] at hrule
  rcases hrule with rfl | rfl | rfl | rfl | rfl | rfl | rfl | rfl | rfl
  case inr.inr.inr.inr.inr.inr.inl => rfl
  all_goals exact absurd hname (by decide)

/-- The arithmetic grammar reads a text alike with two choices between symbols that differ in no
symbol that occurs in it. -/
theorem parse_reading {p p' : Pattern} {symbols symbols' : List String} (h : p.Reads symbols)
    (h' : p'.Reads symbols') {source : String}
    (hsymbols : ∀ symbol : String, symbol.toList <:+: source.toList →
      (symbol ∈ symbols ↔ symbol ∈ symbols')) (limit : Int) (keepIgnored : Bool) :
    (reading p).parse source limit keepIgnored = (reading p').parse source limit keepIgnored := by
  let f (rule : Rule) : Matcher := if rule.name = operatorRule then p' else rule.pattern
  have hreading : reading p' = (reading p).withPatterns f := rfl
  have halike : (reading p).MatchesAlike f source.toList := by
    intro rule hrule offset
    by_cases hname : rule.name = operatorRule
    · obtain rfl := rule_of_name hrule hname
      rw [show f (Arithmetic.symbols p) = p' from if_pos hname]
      refine (Pattern.width?_eq h h' fun symbol hbegins => hsymbols symbol ?_).symm
      exact hbegins.isInfix.trans (List.drop_suffix offset _).isInfix
    · rw [show f rule = rule.pattern from if_neg hname]
  rw [hreading, (hookless_reading p).parse_withPatterns halike (check_reading p)
    (entryRules_reading p)]

end Arithmetic

end Polish
