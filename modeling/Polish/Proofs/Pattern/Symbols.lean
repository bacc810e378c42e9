import Polish.Pattern.Reader
import Polish.Proofs.Pattern.Run

/-!
# Patterns that choose between symbols

The pattern of the operator rule is a choice between fixed texts.  `Regex.Chooses r symbols` says so
of a pattern, whatever it is made of: single texts, one of some characters, or choices between
these.  Such a pattern takes the whole of a text exactly if that is one of the symbols
(`Pattern.matchesAll_iff`).

A choice takes its first match, which need not be the longest.  If no symbol comes before a longer
one, it is: `Pattern.width?_symbols`.

## How the proof goes

That a pattern chooses between symbols is an equation for its run with any goal, so a choice between
such patterns is one between all their symbols, in their order (`Chooses.alt`).  Of the first symbol
that the text begins with, those before it are no beginnings, and those behind it are not longer in
a sorted list.
-/

set_option autoImplicit false

namespace Polish

namespace Regex

variable {r r' : Regex} {symbols symbols' : List String}

/-- The pattern takes the first of the symbols that the text begins with and the goal agrees to. -/
def Chooses (r : Regex) (symbols : List String) : Prop :=
  ∀ s k, r.run false s k = symbols.findSome? fun symbol =>
    if symbol.toList <+: s then k (s.drop symbol.length) else none

theorem run_literal (text s : List Char) (k : Goal) :
    (literal text).run false s k
      = if text <+: s then k (s.drop text.length) else none := by
  induction text generalizing s with
  | nil => rw [if_pos List.nil_prefix]; rfl
  | cons c text ih =>
    rw [literal, List.map_cons, run_sequence_cons]
    cases s with
    | nil => rw [(single_char c).1, if_neg (by simp)]
    | cons x t =>
      rw [(single_char c).2, List.length_cons, List.drop_succ_cons]
      by_cases hc : c = x
      · rw [if_pos (beq_iff_eq.2 hc)]
        simp only [List.cons_prefix_cons, hc, true_and]
        exact ih t
      · rw [if_neg (by simpa using hc), if_neg fun h => hc (List.cons_prefix_cons.1 h).1]

theorem chooses_literal (symbol : String) : Chooses (literal symbol.toList) [symbol] := by
  intro s k
  rw [run_literal, List.findSome?_singleton, String.length_toList]

theorem Chooses.alt (h : r.Chooses symbols) (h' : r'.Chooses symbols') :
    (Regex.alt r r').Chooses (symbols ++ symbols') := by
  intro s k
  rw [run_alt, h, h', List.findSome?_append]

theorem chooses_oneOfChars (cs : List Char) :
    (oneOfChars cs).Chooses (cs.map String.singleton) := by
  intro s k
  cases s with
  | nil =>
    rw [(single_oneOfChars cs).1, eq_comm, List.findSome?_eq_none_iff]
    intro symbol hsymbol
    obtain ⟨c, -, rfl⟩ := List.mem_map.1 hsymbol
    simp
  | cons x t =>
    rw [(single_oneOfChars cs).2]
    induction cs with
    | nil => rfl
    | cons c cs ih =>
      rw [List.map_cons, List.findSome?_cons, ← ih]
      by_cases hc : x = c
      · subst hc
        cases hk : k t <;> simp [hk]
      · simp [hc, Ne.symm hc]

/-- The choice between some texts takes the first of them that it can. -/
theorem chooses_choice (hne : symbols ≠ []) :
    (choice (symbols.map fun symbol => literal symbol.toList)).Chooses symbols := by
  intro s k
  rw [run_choice (by simpa using hne), List.findSome?_map]
  congr 1
  funext symbol
  rw [Function.comp_apply, run_literal, String.length_toList]

end Regex

namespace Pattern

variable {p : Pattern} {symbols : List String}

/-- The pattern tells letter case apart and takes one of some symbols, none before a longer one. -/
structure Reads (p : Pattern) (symbols : List String) : Prop where
  ignoreCase : p.ignoreCase = false
  chooses : p.regex.Chooses symbols
  sorted : symbols.Pairwise fun a b => b.length ≤ a.length

theorem matchesAll_iff (h : p.Reads symbols) (s : String) :
    p.matchesAll s = true ↔ s ∈ symbols := by
  rw [matchesAll, h.ignoreCase, h.chooses, List.findSome?_isSome_iff]
  constructor
  · rintro ⟨symbol, hsymbol, htakes⟩
    obtain ⟨t, ht⟩ := Option.isSome_iff_exists.1 htakes
    obtain ⟨⟨rest, hrest⟩, ht⟩ := Option.ite_none_right_eq_some.1 ht
    obtain ⟨hempty, -⟩ := Option.ite_none_right_eq_some.1 ht
    rw [← String.length_toList, ← hrest, List.drop_left, List.isEmpty_iff] at hempty
    rw [hempty, List.append_nil, String.toList_inj] at hrest
    exact hrest ▸ hsymbol
  · intro hs
    refine ⟨s, hs, ?_⟩
    rw [if_pos (List.prefix_refl _), ← String.length_toList, List.drop_length]
    rfl

end Pattern

/-- The longest of some symbols that a text begins with. -/
structure LongestPrefix (symbols : List String) (text : List Char) (symbol : String) : Prop where
  mem : symbol ∈ symbols
  isPrefix : symbol.toList <+: text
  longest : ∀ other ∈ symbols, other.toList <+: text → other.length ≤ symbol.length

theorem LongestPrefix.congr {symbols symbols' : List String} {text : List Char} {symbol : String}
    (h : LongestPrefix symbols text symbol) (hmem : ∀ other, other ∈ symbols ↔ other ∈ symbols') :
    LongestPrefix symbols' text symbol :=
  ⟨(hmem symbol).1 h.mem, h.isPrefix, fun other hother => h.longest other ((hmem other).2 hother)⟩

/-- **The first match of a sorted choice is the longest one.** -/
theorem Pattern.width?_symbols {p : Pattern} {symbols : List String} (h : p.Reads symbols)
    (text : List Char) :
    (∀ width, p.width? text = some width →
        ∃ symbol, LongestPrefix symbols text symbol ∧ symbol.length = width) ∧
      (p.width? text = none → ∀ symbol ∈ symbols, ¬ symbol.toList <+: text) := by
  have hrest : p.rest? text = symbols.findSome? fun symbol =>
      if symbol.toList <+: text then some (text.drop symbol.length) else none := by
    rw [rest?, h.ignoreCase, h.chooses]
  refine ⟨fun width hwidth => ?_, fun hnone symbol hsymbol hbegins => ?_⟩
  · rw [width?, hrest] at hwidth
    obtain ⟨rest, hfound, rfl⟩ := Option.map_eq_some_iff.1 hwidth
    obtain ⟨before, symbol, after, rfl, hsymbol, hbefore⟩ := List.findSome?_eq_some_iff.1 hfound
    obtain ⟨htaken, hsymbol⟩ := Option.ite_none_right_eq_some.1 hsymbol
    obtain rfl := Option.some.inj hsymbol
    refine ⟨symbol, ⟨by simp, htaken, fun other hother hbegins => ?_⟩, ?_⟩
    · -- What stands before it is no prefix, and what stands after it is no longer.
      rcases List.mem_append.1 hother with hother | hother
      · have := hbefore other hother
        rw [if_pos hbegins] at this
        cases this
      · rcases List.mem_cons.1 hother with rfl | hother
        · exact Nat.le_refl _
        · exact (List.pairwise_cons.1 (List.pairwise_append.1 h.sorted).2.1).1 other hother
    · have hlength := htaken.length_le
      rw [String.length_toList] at hlength
      rw [List.length_drop]
      omega
  · rw [width?, Option.map_eq_none_iff, hrest, List.findSome?_eq_none_iff] at hnone
    have := hnone symbol hsymbol
    rw [if_pos hbegins] at this
    cases this

end Polish
