import Mathlib.Data.List.Chain
import Polish.Proofs.Grammar.Lexemes
import Polish.Proofs.Grammar.Stall
import Polish.Proofs.Grammar.Turns

/-!
# The arithmetic grammar does not stand still

Two rules of the arithmetic grammar match the empty text, the two states, and the rules lead from
each of them to the other.  But a state leads to words only, and a word is not empty.

* `Regex.Moves` — a pattern that takes at least one character, whatever is asked of the rest;
* `Turn.moves_words` — every word's pattern is one, if no operator symbol is empty;
* `Arithmetic.moving_walk` — so no two lexemes in a row are empty, in any text;
* `Arithmetic.standing_le_three` — and no more than three are, even if an operator symbol is empty;
* `Grammar.Hookless.parse_cases` — and a grammar of which that is so never runs into the guard
  against standing still.

## How the proof goes

What makes it go through is to say along with it where the scan is.  `Placed` is the invariant: if
it is a state's turn to come next, then the last lexeme was a word, and so it has taken something.
A state may be empty, but then the words of its turn come next, and of those none is.

If a symbol is empty the operator rule can match nothing, between the two states.  For that case the
number of empty lexemes is bounded turn by turn (`idle`): two before a value, the operator and the
state before it, and none before an operator.  With the state itself this makes three.
-/

set_option autoImplicit false

namespace Polish

open Lexeme (covered standing)

/-! ## Patterns that take something -/

namespace Regex

variable {ignoreCase : Bool} {r first second : Regex}

/-- Whatever is asked of the rest, the pattern has taken something before. -/
def Moves (ignoreCase : Bool) (r : Regex) : Prop :=
  ∀ (s : List Char) (k : Goal) (u : List Char), r.run ignoreCase s k = some u →
    ∃ t : List Char, t.length < s.length ∧ k t = some u

theorem Single.moves {p : Char → Bool} (h : Single ignoreCase p r) : Moves ignoreCase r := by
  intro s k u hu
  obtain ⟨c, t, rfl, -, hk⟩ := h.run_eq_some hu
  exact ⟨t, Nat.lt_succ_self _, hk⟩

theorem Single.moves_atLeastOne {p : Char → Bool} (h : Single ignoreCase p r) :
    Moves ignoreCase (atLeastOne r) := by
  intro s k u hu
  obtain ⟨xs, t, hne, rfl, -, hk⟩ := h.run_atLeastOne_eq_some hu
  refine ⟨t, ?_, hk⟩
  have hlength := List.length_pos_iff.2 hne
  rw [List.length_append]
  omega

theorem Moves.seq_left (h : Moves ignoreCase first) : Moves ignoreCase (.seq first second) := by
  intro s k u hu
  obtain ⟨t, ht, hk⟩ := h s _ u hu
  obtain ⟨v, hv, hk⟩ := takesFromFront_run ignoreCase second t k u hk
  exact ⟨v, Nat.lt_of_le_of_lt hv.length_le ht, hk⟩

theorem Moves.seq_right (h : Moves ignoreCase second) : Moves ignoreCase (.seq first second) := by
  intro s k u hu
  obtain ⟨t, ht, hk⟩ := takesFromFront_run ignoreCase first s _ u hu
  obtain ⟨v, hv, hk⟩ := h t k u hk
  exact ⟨v, Nat.lt_of_lt_of_le hv ht.length_le, hk⟩

/-- A choice between symbols takes something if none of them is empty. -/
theorem Chooses.moves {symbols : List String} (h : r.Chooses symbols) (hsymbols : "" ∉ symbols) :
    Moves false r := by
  intro s k u hu
  rw [h] at hu
  obtain ⟨symbol, hsymbol, htaken⟩ := List.exists_of_findSome?_eq_some hu
  obtain ⟨hbegins, hk⟩ := Option.ite_none_right_eq_some.1 htaken
  refine ⟨_, ?_, hk⟩
  have hlength : symbol.length ≠ 0 := fun hzero =>
    hsymbols (String.length_eq_zero_iff.1 hzero ▸ hsymbol)
  have hle := hbegins.length_le
  rw [String.length_toList] at hle
  rw [List.length_drop]
  omega

end Regex

theorem Pattern.width_pos {p : Pattern} (h : p.regex.Moves p.ignoreCase) {source : List Char}
    {offset width : Nat} (hwidth : p.matcher.width? source offset = some width) : 0 < width := by
  obtain ⟨u, hu, rfl⟩ := Option.map_eq_some_iff.1 hwidth
  obtain ⟨t, ht, hk⟩ := h _ _ _ hu
  obtain rfl := Option.some.inj hk
  omega

/-! ## Words -/

open Arithmetic
open Regex (Moves)

/-- The rule is made of a pattern that takes something. -/
def Rule.Moves (rule : Rule) : Prop :=
  ∃ p : Pattern, rule.pattern = p.matcher ∧ p.regex.Moves p.ignoreCase

theorem moves_bracket (c : Char) : Moves false (bracket c) :=
  (Regex.single_char c).moves.seq_left.seq_right

/-- **Words are not empty**, unless they are operators. -/
theorem Turn.moves_or_symbols {pattern : Pattern} (turn : Turn) :
    ∀ rule ∈ turn.words pattern, rule.Moves ∨ turn = .operator ∧ rule = symbols pattern := by
  have hopen : openRule.Moves := ⟨_, rfl, moves_bracket '('⟩
  have hclose : closeRule.Moves := ⟨_, rfl, moves_bracket ')'⟩
  intro rule hrule
  cases turn with
  | value =>
    simp only [words, List.mem_cons, List.not_mem_nil, or_false] at hrule
    rcases hrule with rfl | rfl | rfl | rfl | rfl
    · exact .inl hopen
    · exact .inl hclose
    · exact .inl ⟨_, rfl, single_digit.moves_atLeastOne.seq_left.seq_right⟩
    · exact .inl ⟨_, rfl, single_letter.moves.seq_left⟩
    · exact .inl ⟨_, rfl, single_letter.moves.seq_left⟩
  | operator =>
    simp only [words, List.mem_cons, List.not_mem_nil, or_false] at hrule
    rcases hrule with rfl | rfl | rfl
    · exact .inl hclose
    · exact .inl ⟨_, rfl, (Regex.single_char ',').moves⟩
    · exact .inr ⟨rfl, rfl⟩
  | bracket =>
    obtain rfl := List.mem_singleton.1 hrule
    exact .inl hopen

/-- **Words are not empty** if no operator symbol is. -/
theorem Turn.moves_words {pattern : Pattern} {symbols : List String}
    (hreads : pattern.Reads symbols) (hsymbols : "" ∉ symbols) (turn : Turn) :
    ∀ rule ∈ turn.words pattern, rule.Moves := by
  intro rule hrule
  rcases turn.moves_or_symbols rule hrule with hmoves | ⟨-, rfl⟩
  · exact hmoves
  · refine ⟨pattern, rfl, ?_⟩
    rw [hreads.ignoreCase]
    exact hreads.chooses.moves hsymbols

theorem Rule.Moves.width_ne_zero {rule : Rule} (h : rule.Moves) {source : List Char}
    {offset width : Nat} (hwidth : rule.pattern.width? source offset = some width) :
    width ≠ 0 := by
  obtain ⟨p, hp, hmoves⟩ := h
  exact Nat.ne_of_gt (Pattern.width_pos hmoves (hp ▸ hwidth))

/-! ## Walks -/

namespace Lexeme

/-- Of any two lexemes in a row, one takes something. -/
def Moving (ls : List Lexeme) : Prop := ls.IsChain fun a b => a.width ≠ 0 ∨ b.width ≠ 0

theorem moving_concat {ls : List Lexeme} {l : Lexeme} :
    Moving (ls ++ [l]) ↔ Moving ls ∧ ∀ a ∈ ls.getLast?, a.width ≠ 0 ∨ l.width ≠ 0 := by
  rw [Moving, List.isChain_append]
  simp [Moving]

theorem Moving.standing_le {ls : List Lexeme} (h : Moving ls) : standing ls ≤ 1 := by
  induction ls using List.reverseRecOn with
  | nil => exact Nat.zero_le 1
  | append_singleton ls b _ =>
    rw [standing_concat]
    split
    · next hb =>
      induction ls using List.reverseRecOn with
      | nil => exact Nat.le_refl 1
      | append_singleton ls a _ =>
        have ha := (moving_concat.1 h).2 a List.getLast?_concat
        rw [standing_concat, if_neg (ha.resolve_right (not_not_intro hb))]
    · exact Nat.zero_le 1

/-- One match without progress is all that such lexemes need. -/
theorem Moving.within {ls : List Lexeme} (h : Moving ls) {limit : Int} (hlimit : 1 ≤ limit) :
    Within limit ls := by
  intro before hbefore
  have hmoving : Moving before := List.IsChain.prefix h hbefore
  exact .inr (Int.le_trans (Int.ofNat_le.2 hmoving.standing_le) hlimit)

end Lexeme

namespace Arithmetic

variable {pattern : Pattern} {symbols : List String} {source : List Char} {ls : List Lexeme}

/-- After some lexemes the words of a turn come next, or else its state does, and then the last of
the lexemes has taken something. -/
def Placed (pattern : Pattern) (ls : List Lexeme) : Prop :=
  ∃ turn : Turn, (reading pattern).reached [valueRule] ls = turn.words pattern ∨
    (reading pattern).reached [valueRule] ls = [turn.entry] ∧ ∀ l ∈ ls.getLast?, l.width ≠ 0

theorem placed_word {turn : Turn} {l : Lexeme} (hrule : l.rule ∈ turn.words pattern)
    (hwidth : l.width ≠ 0) : Placed pattern (ls ++ [l]) := by
  obtain ⟨-, -, turn', -, hfollowers, -⟩ := Turn.followers_word hrule
  refine ⟨turn', .inr ⟨by rw [Grammar.reached_concat, hfollowers], ?_⟩⟩
  rw [List.getLast?_concat]
  rintro _ ⟨⟩
  exact hwidth

/-- **In no text are two lexemes in a row empty.** -/
theorem moving_walk (hreads : pattern.Reads symbols) (hsymbols : "" ∉ symbols)
    (h : (reading pattern).Walk source [valueRule] ls) :
    Lexeme.Moving ls ∧ Placed pattern ls := by
  induction h with
  | nil => exact ⟨List.IsChain.nil, .value, .inr ⟨rfl, nofun⟩⟩
  | @concat ls rule width before inside first ih =>
    obtain ⟨hmoving, turn, hplace⟩ := ih
    obtain ⟨hrule, hmatch⟩ := Scan.firstMatch_mem first
    have word {turn : Turn} (hrule : rule ∈ turn.words pattern) :
        Lexeme.Moving (ls ++ [⟨rule, covered ls, width⟩]) ∧
          Placed pattern (ls ++ [⟨rule, covered ls, width⟩]) := by
      have hwidth := (turn.moves_words hreads hsymbols rule hrule).width_ne_zero hmatch
      exact ⟨Lexeme.moving_concat.2 ⟨hmoving, fun _ _ => .inr hwidth⟩, placed_word hrule hwidth⟩
    rcases hplace with hwords | ⟨hentry, hlast⟩
    · exact word (hwords ▸ hrule)
    · rw [hentry, List.mem_singleton] at hrule
      have hmoving' : Lexeme.Moving (ls ++ [⟨rule, covered ls, width⟩]) :=
        Lexeme.moving_concat.2 ⟨hmoving, fun a ha => .inl (hlast a ha)⟩
      cases turn with
      | bracket =>
        have hword : rule ∈ Turn.bracket.words pattern := List.mem_singleton.2 hrule
        exact word hword
      | value => exact ⟨hmoving', .value, .inl (by rw [Grammar.reached_concat, hrule]; rfl)⟩
      | operator => exact ⟨hmoving', .operator, .inl (by rw [Grammar.reached_concat, hrule]; rfl)⟩

/-- How many empty lexemes in a row there may be before a turn.  An empty operator may stand between
the two states. -/
def idle : Turn → Nat
  | .value => 2
  | .operator | .bracket => 0

/-- **In no text are there more than three empty lexemes in a row**, whatever the operators are. -/
theorem standing_walk (h : (reading pattern).Walk source [valueRule] ls) : ∃ turn : Turn,
    (reading pattern).reached [valueRule] ls = [turn.entry] ∧ standing ls ≤ idle turn ∨
      (reading pattern).reached [valueRule] ls = turn.words pattern ∧
        standing ls ≤ idle turn + 1 := by
  induction h with
  | nil => exact ⟨.value, .inl ⟨rfl, Nat.zero_le _⟩⟩
  | @concat ls rule width before inside first ih =>
    obtain ⟨turn, hplace⟩ := ih
    obtain ⟨hrule, hmatch⟩ := Scan.firstMatch_mem first
    -- A lexeme adds one at most, and a word that is no operator sets the count back.
    have hone := Lexeme.standing_concat_le ls ⟨rule, covered ls, width⟩
    have word {turn : Turn} (hrule : rule ∈ turn.words pattern)
        (hstanding : standing ls ≤ idle turn + 1) : ∃ turn' : Turn,
          (reading pattern).followers rule = [turn'.entry] ∧
            standing (ls ++ [⟨rule, covered ls, width⟩]) ≤ idle turn' := by
      rcases turn.moves_or_symbols rule hrule with hmoves | ⟨rfl, rfl⟩
      · obtain ⟨-, -, turn', -, hfollowers, -⟩ := Turn.followers_word hrule
        refine ⟨turn', hfollowers, ?_⟩
        rw [Lexeme.standing_concat, if_neg (hmoves.width_ne_zero hmatch)]
        exact Nat.zero_le _
      · exact ⟨.value, rfl, Nat.le_trans hone (Nat.succ_le_succ hstanding)⟩
    rw [Grammar.reached_concat]
    rcases hplace with ⟨hentry, hstanding⟩ | ⟨hwords, hstanding⟩
    · rw [hentry, List.mem_singleton] at hrule
      have hstate := Nat.le_trans hone (Nat.succ_le_succ hstanding)
      cases turn with
      | bracket =>
        have hword : rule ∈ Turn.bracket.words pattern := List.mem_singleton.2 hrule
        obtain ⟨turn', hplace⟩ := word hword (Nat.le_succ_of_le hstanding)
        exact ⟨turn', .inl hplace⟩
      | value => exact ⟨.value, .inr ⟨by rw [hrule]; rfl, hstate⟩⟩
      | operator => exact ⟨.operator, .inr ⟨by rw [hrule]; rfl, hstate⟩⟩
    · obtain ⟨turn', hplace⟩ := word (hwords ▸ hrule) hstanding
      exact ⟨turn', .inl hplace⟩

theorem standing_le_three (h : (reading pattern).Walk source [valueRule] ls) :
    standing ls ≤ 3 := by
  obtain ⟨turn, ⟨-, hstanding⟩ | ⟨-, hstanding⟩⟩ := standing_walk h
  all_goals
    cases turn <;> simp only [idle] at hstanding <;> omega

end Arithmetic

/-! ## Results -/

namespace Grammar

variable {g : Grammar} {start : List Rule}

/-- A grammar that never stands still for longer than the limit allows reads a text, or the text is
at fault. -/
theorem Hookless.parse_cases (hg : g.Hookless) (hcheck : g.check = .ok ())
    (hentry : g.entryRules = .ok start) {source : String} {limit : Int}
    (hmoving : ∀ ls, g.Walk source.toList start ls → (standing ls : Int) ≤ limit) (keep : Bool) :
    (∃ tokens, g.parse source limit keep = .ok tokens) ∨
      ∃ e, g.parse source limit keep = .error (.lex e) := by
  obtain ⟨ls, result, hwalk, hresult, hscan⟩ :=
    exists_walk hg hentry .nil (@roundsLeft_nil source limit)
  rw [hg.parse_of_ends hcheck hentry ⟨_, hscan keep⟩]
  have hend := hresult keep
  rw [Scan.advance] at hend
  split at hend
  · next inside =>
    split at hend
    · obtain rfl := Sum.inl.inj hend
      exact .inr ⟨_, rfl⟩
    · next rule width hfirst =>
      split at hend
      · next hstalled =>
        have hstanding := hmoving _ (hwalk.concat inside hfirst)
        rw [Lexeme.standing_concat, if_pos hstalled.1] at hstanding
        exact absurd hstalled.2 (Int.not_lt.2 hstanding)
      · cases hend
  · split at hend
    · obtain rfl := Sum.inl.inj hend
      exact .inr ⟨_, rfl⟩
    · obtain rfl := Sum.inl.inj hend
      exact .inl ⟨_, rfl⟩

end Grammar

end Polish
