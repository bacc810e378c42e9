import Polish.Text.Blank
import Polish.Text.Digit
import Polish.Text.Word
import Polish.Text.LetterCase

/-!
# Patterns

A pattern describes the lexemes of a rule.  It is matched at one place of a text, never searched
for, and the first way through wins: alternatives are tried from left to right, a repetition takes
another round before it gives up, and when the rest of the pattern fails the last choice is taken
back.

`Regex` is the syntax.  `Regex.run` is the matcher, written with the rest of the pattern as a
continuation, so that backtracking is nothing but trying the next branch when the continuation
answers `none`.  A round of a repetition that consumes nothing ends the repetition, so the number
of rounds is bounded by the length of the text and the matcher is total.

* `Pattern.rest? p s` is what is left of `s` after the match of `p` at its beginning;
* `Pattern.width? p s` is the length of that match;
* `Pattern.matchesAll p s` says that some way through takes the whole of `s`.

The scan of a text knows a pattern only through the last two, and so does an engine when it looks
whether a symbol is new: they are the methods `match` and `fullmatch` of a compiled pattern.  A
`Matcher` is just these two with the bound that a match is not longer than what is left of the text,
so that what is proved of scans holds for every pattern engine that keeps to it, and not only for
the one that is defined here.
-/

set_option autoImplicit false

namespace Polish

/-! ## Syntax -/

/-- A named class of characters. -/
inductive Category where
  | digit
  | word
  | blank
deriving Repr, DecidableEq

def Category.holds : Category → Char → Bool
  | .digit, c => Text.isDigit c
  | .word, c => Text.isWord c
  | .blank, c => Text.isBlank c

/-- One member of a character class. -/
inductive ClassItem where
  | char (c : Char)
  | range (first last : Char)
  | category (kind : Category) (negated : Bool)
deriving Repr, DecidableEq

/-- Whether a character belongs to a class item, letter case told apart. -/
def ClassItem.holds : ClassItem → Char → Bool
  | .char c, x => c == x
  | .range first last, x => first.toNat ≤ x.toNat && x.toNat ≤ last.toNat
  | .category kind negated, x => kind.holds x != negated

inductive Regex where
  | empty
  | any
  | oneOf (negated : Bool) (items : List ClassItem)
  | seq (first second : Regex)
  | alt (first second : Regex)
  | repeated (least : Nat) (most : Option Nat) (body : Regex)
  | ahead (body : Regex)
deriving Repr, DecidableEq

namespace Regex

/-- The pattern of a single character. -/
def char (c : Char) : Regex := .oneOf false [.char c]

/-- The patterns one after another. -/
def sequence : List Regex → Regex
  | [] => .empty
  | [r] => r
  | r :: rest => .seq r (sequence rest)

/-- The choice between patterns, the earlier ones preferred. -/
def choice : List Regex → Regex
  | [] => .empty
  | [r] => r
  | r :: rest => .alt r (choice rest)

/-- The pattern of a fixed text. -/
def literal (text : List Char) : Regex := sequence (text.map char)

/-- A character of a named class. -/
def category (kind : Category) : Regex := .oneOf false [.category kind false]

/-- One of the given characters. -/
def oneOfChars (cs : List Char) : Regex := .oneOf false (cs.map .char)

def optional (r : Regex) : Regex := .repeated 0 (some 1) r

def many (r : Regex) : Regex := .repeated 0 none r

def atLeastOne (r : Regex) : Regex := .repeated 1 none r

end Regex

/-! ## Matching -/

/-- Whether a class accepts a character; with `ignoreCase`, in any of its spellings. -/
def ClassItem.accepts (ignoreCase negated : Bool) (items : List ClassItem) (x : Char) : Bool :=
  let spellings := if ignoreCase then Text.variants x else [x]
  (spellings.any fun y => items.any fun item => item.holds y) != negated

namespace Regex

/-- What to do with the text that is left: the rest of the pattern. -/
abbrev Goal := List Char → Option (List Char)

/-- Takes `body` exactly `count` times. -/
def exactly (body : List Char → Goal → Option (List Char)) : Nat → List Char → Goal →
    Option (List Char)
  | 0, s, k => k s
  | count + 1, s, k => body s fun t => exactly body count t k

/-- Takes `body` as often as it goes, at most `rounds` times, and fewer times when the goal cannot
be reached otherwise.  A round that consumes nothing is the last one. -/
def upTo (body : List Char → Goal → Option (List Char)) : Nat → List Char → Goal →
    Option (List Char)
  | 0, s, k => k s
  | rounds + 1, s, k =>
    (body s fun t => if t.length < s.length then upTo body rounds t k else k t) <|> k s

/-- Matches a pattern at the beginning of a text and goes on with the goal. -/
def run (ignoreCase : Bool) : Regex → List Char → Goal → Option (List Char)
  | .empty, s, k => k s
  | .any, s, k => match s with
    | [] => none
    | c :: t => if c = '\n' then none else k t
  | .oneOf negated items, s, k => match s with
    | [] => none
    | c :: t => if ClassItem.accepts ignoreCase negated items c then k t else none
  | .seq first second, s, k => run ignoreCase first s fun t => run ignoreCase second t k
  | .alt first second, s, k => run ignoreCase first s k <|> run ignoreCase second s k
  | .repeated least most body, s, k =>
    exactly (run ignoreCase body) least s fun t =>
      let rounds := match most with
        | none => t.length
        | some bound => min (bound - least) t.length
      upTo (run ignoreCase body) rounds t k
  | .ahead body, s, k => if (run ignoreCase body s some).isSome then k s else none

end Regex

/-- A pattern with the decision whether letter case counts. -/
structure Pattern where
  regex : Regex
  ignoreCase : Bool
deriving Repr, DecidableEq

namespace Pattern

/-- What is left of a text after the match at its beginning. -/
def rest? (p : Pattern) (s : List Char) : Option (List Char) := p.regex.run p.ignoreCase s some

/-- The length of the match at the beginning of a text. -/
def width? (p : Pattern) (s : List Char) : Option Nat :=
  (p.rest? s).map fun t => s.length - t.length

/-- Whether the pattern can take the whole text. -/
def matchesAll (p : Pattern) (s : String) : Bool :=
  (p.regex.run p.ignoreCase s.toList fun t => if t.isEmpty then some t else none).isSome

end Pattern

/-! ## Matches are made from the front -/

namespace Regex

/-- A matcher only ever hands a remainder of its text to its goal. -/
def TakesFromFront (m : List Char → Goal → Option (List Char)) : Prop :=
  ∀ (s : List Char) (k : Goal) (r : List Char), m s k = some r → ∃ t, t <:+ s ∧ k t = some r

theorem TakesFromFront.exactly {m : List Char → Goal → Option (List Char)} (h : TakesFromFront m)
    (count : Nat) : TakesFromFront (Regex.exactly m count) := by
  induction count with
  | zero => exact fun s k r hr => ⟨s, List.suffix_rfl, hr⟩
  | succ count ih =>
    intro s k r hr
    obtain ⟨t, ht, hk⟩ := h s _ r hr
    obtain ⟨u, hu, hk⟩ := ih t k r hk
    exact ⟨u, hu.trans ht, hk⟩

theorem TakesFromFront.upTo {m : List Char → Goal → Option (List Char)} (h : TakesFromFront m)
    (rounds : Nat) : TakesFromFront (Regex.upTo m rounds) := by
  induction rounds with
  | zero => exact fun s k r hr => ⟨s, List.suffix_rfl, hr⟩
  | succ rounds ih =>
    intro s k r hr
    rw [Regex.upTo, Option.orElse_eq_orElse, Option.orElse_eq_or, Option.or_eq_some_iff] at hr
    rcases hr with hr | ⟨-, hr⟩
    · obtain ⟨t, ht, hk⟩ := h s _ r hr
      split at hk
      · obtain ⟨u, hu, hk⟩ := ih t k r hk
        exact ⟨u, hu.trans ht, hk⟩
      · exact ⟨t, ht, hk⟩
    · exact ⟨s, List.suffix_rfl, hr⟩

theorem takesFromFront_run (ignoreCase : Bool) (p : Regex) :
    TakesFromFront (p.run ignoreCase) := by
  induction p with
  | empty => exact fun s k r hr => ⟨s, List.suffix_rfl, hr⟩
  | any =>
    intro s k r hr
    cases s with
    | nil => cases hr
    | cons c t =>
      simp only [run] at hr
      split at hr
      · cases hr
      · exact ⟨t, List.suffix_cons c t, hr⟩
  | oneOf negated items =>
    intro s k r hr
    cases s with
    | nil => cases hr
    | cons c t =>
      simp only [run] at hr
      split at hr
      · exact ⟨t, List.suffix_cons c t, hr⟩
      · cases hr
  | seq first second ih₁ ih₂ =>
    intro s k r hr
    obtain ⟨t, ht, hk⟩ := ih₁ s _ r hr
    obtain ⟨u, hu, hk⟩ := ih₂ t k r hk
    exact ⟨u, hu.trans ht, hk⟩
  | alt first second ih₁ ih₂ =>
    intro s k r hr
    rw [run, Option.orElse_eq_orElse, Option.orElse_eq_or, Option.or_eq_some_iff] at hr
    rcases hr with hr | ⟨-, hr⟩
    · exact ih₁ s k r hr
    · exact ih₂ s k r hr
  | repeated least most body ih =>
    intro s k r hr
    obtain ⟨t, ht, hk⟩ := ih.exactly least s _ r hr
    obtain ⟨u, hu, hk⟩ := ih.upTo _ t k r hk
    exact ⟨u, hu.trans ht, hk⟩
  | ahead body ih =>
    intro s k r hr
    simp only [run] at hr
    split at hr
    · exact ⟨s, List.suffix_rfl, hr⟩
    · cases hr

end Regex

/-- A match takes its text from the front. -/
theorem Pattern.suffix_of_rest? {p : Pattern} {s t : List Char} (h : p.rest? s = some t) :
    t <:+ s := by
  obtain ⟨u, hu, hk⟩ := Regex.takesFromFront_run p.ignoreCase p.regex s some t h
  cases hk
  exact hu

theorem Pattern.width?_le {p : Pattern} {s : List Char} {width : Nat}
    (h : p.width? s = some width) : width ≤ s.length := by
  obtain ⟨t, -, rfl⟩ := Option.map_eq_some_iff.1 h
  exact Nat.sub_le ..

/-! ## Matchers -/

/-- What finds the lexemes of a rule.  A matcher is shown a whole text and an offset in it, and it
answers with the length of the lexeme that begins there.  A pattern is one that looks at nothing
before the offset; a matcher of another make may do so. -/
structure Matcher where
  width? : List Char → Nat → Option Nat
  /-- A lexeme lies inside the text. -/
  width?_le : ∀ source offset width, width? source offset = some width →
    width ≤ (source.drop offset).length
  matchesAll : String → Bool
  ignoreCase : Bool

/-- The pattern as a matcher. -/
def Pattern.matcher (p : Pattern) : Matcher where
  width? source offset := p.width? (source.drop offset)
  width?_le _ _ _ := Pattern.width?_le
  matchesAll := p.matchesAll
  ignoreCase := p.ignoreCase

instance : Coe Pattern Matcher := ⟨Pattern.matcher⟩

end Polish
