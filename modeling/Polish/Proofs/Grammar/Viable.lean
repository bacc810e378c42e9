import Mathlib.Data.Bool.AllAny
import Polish.Proofs.Grammar.Firsts
import Polish.Proofs.Grammar.Lossless
import Polish.Proofs.Grammar.Moving

/-!
# What was read before an error was good

The scan takes the first rule that matches and never goes back.  All the same it does not take a
wrong way: what it has read before an error is the beginning of a text that is accepted.  Already
with a closing bracket at the place of the error the text is one, since a closing bracket may come
in both states of the grammar.

A rule may look at what comes behind its match.  So that the lexemes of the beginning are found
again, the rest of the new text has to be looked at first, and `Grammar.Completes` goes from right
to left: from behind a match of a rule, the scan goes on to a good end.

* `Arithmetic.Completes.valueEnds`, `Arithmetic.Completes.bracketAhead` — what the text is then like
  behind a value and behind the name of a call;
* `Arithmetic.first_again` — so a rule that matched before matches again;
* `Arithmetic.lex_error_viable` — and the beginning is read again as it was.

## Why a closing bracket

To continue what has been read, a word is needed that the grammar admits in any turn.  Where a value
is due, an operator is not admitted; where an operator is due, a value is not; a closing bracket is
admitted in both.  Only behind the name of a call it is not, and there a scan does not fail, since
such a name is one only with its bracket behind it (`last_ne_call`).

That the bracket does not change what the lexemes before it have been is the longer part.  A number
at the end of what was read might have ended at a letter, and now it ends at the bracket.  Names and
numbers have ended before something that may follow a value, or before the place of the error, where
the bracket now stands, and in both cases nothing is added to them (`word_again`).
-/

set_option autoImplicit false

namespace Polish

open Arithmetic
open Lexeme (covered)
open Text (isBlank isDigit)

/-! ## Good ends -/

namespace Grammar

variable {g : Grammar} {source : List Char} {start : List Rule} {rule : Rule} {i width : Nat}

/-- From behind a match of a rule, the scan of a text goes on to a good end. -/
inductive Completes (g : Grammar) (source : List Char) : Rule → Nat → Prop
  | done {rule : Rule} {i : Nat} (final : rule.final = true) (ended : source.length ≤ i) :
      Completes g source rule i
  | step {rule next : Rule} {i width : Nat} (inside : i < source.length)
      (first : Scan.firstMatch (g.followers rule) source i = some (next, width))
      (rest : Completes g source next (i + width)) : Completes g source rule i

theorem Completes.exists_walk (h : g.Completes source rule i) {ls : List Lexeme} {l : Lexeme}
    (hwalk : g.Walk source start (ls ++ [l])) (hrule : l.rule = rule)
    (hi : covered (ls ++ [l]) = i) :
    ∃ all, g.Walk source start all ∧ source.length ≤ covered all ∧
      ∀ l ∈ all.getLast?, l.rule.final = true := by
  induction h generalizing ls l with
  | done final ended =>
    refine ⟨ls ++ [l], hwalk, hi ▸ ended, ?_⟩
    rw [List.getLast?_concat]
    rintro _ ⟨⟩
    rw [hrule, final]
  | @step rule next i width inside first _ ih =>
    subst hrule hi
    rw [← reached_concat g start ls l] at first
    exact ih (hwalk.concat inside first) rfl (by rw [Lexeme.covered_concat])

/-- A text that a scan goes through to a good end is accepted, if the scan never stands still for
too long. -/
theorem Hookless.parse_of_completes (hg : g.Hookless) (hcheck : g.check = .ok ())
    (hentry : g.entryRules = .ok start) {source : String} (hne : source.toList ≠ [])
    (hfirst : Scan.firstMatch start source.toList 0 = some (rule, width))
    (h : g.Completes source.toList rule width) {limit : Int}
    (hwithin : ∀ ls, g.Walk source.toList start ls → Lexeme.Within limit ls) (keep : Bool) :
    ∃ tokens, g.parse source limit keep = .ok tokens := by
  have hbegin : g.Walk source.toList start ([] ++ [⟨rule, 0, width⟩]) :=
    Walk.nil.concat (List.length_pos_iff.2 hne) hfirst
  have hcovered : covered ([] ++ [⟨rule, 0, width⟩]) = width := by
    rw [Lexeme.covered_concat, Lexeme.covered_nil, Nat.zero_add]
  obtain ⟨all, hall, hover, hfinal⟩ := h.exists_walk hbegin rfl hcovered
  have hend : Scan.advance ⟨g, source, limit, keep⟩ start all = .inl (.ok ()) := by
    refine Scan.advance_of_end hover fun r hr => ?_
    obtain ⟨l, hl, rfl⟩ := Option.map_eq_some_iff.1 hr
    exact hfinal l hl
  exact ⟨_, hg.parse_of_walk hcheck hentry hall (hwithin all hall) hend⟩

end Grammar

/-! ## What comes behind a value or a name -/

namespace Arithmetic

open Grammar (Completes)
open Scan (firstMatch)

variable {source : List Char} {rule : Rule} {i : Nat}

/-- The characters that a word after a value begins with. -/
def marks : List Char :=
  [')', ',', '<', '>', '-', '+', '*', '/', '%', '&', '|', '×', '÷', '^']

/-- Behind blanks the text is over or goes on with a word that may follow a value. -/
def ValueEnds (t : List Char) : Prop := ∀ c ∈ (t.dropWhile isBlank).head?, c ∈ marks

/-- What a value ends before cannot belong to the value. -/
theorem ValueEnds.head {t : List Char} (h : ValueEnds t) :
    ∀ c ∈ t.head?, EndsNumber c ∧ isNameChar c = false := by
  have hmarks : ∀ c ∈ marks, (isDigit c = false ∧ c ≠ '.' ∧ c ≠ 'e') ∧ isNameChar c = false :=
    List.all_iff_forall_prop.1 (by decide +kernel)
  intro c hc
  obtain ⟨t, rfl⟩ : ∃ u, t = c :: u := ⟨_, List.eq_cons_of_mem_head? hc⟩
  by_cases hblank : isBlank c = true
  · have hdigit : isDigit c = false := by
      rw [Bool.eq_false_iff]
      intro hdigit
      rw [Text.isBlank_of_isDigit hdigit] at hblank
      cases hblank
    refine ⟨⟨hdigit, ?_, ?_⟩, isNameChar_of_isBlank hblank⟩
    · rintro rfl
      cases hblank
    · rintro rfl
      cases hblank
  · have hc : c ∈ marks := h c (by rw [List.dropWhile_cons_of_neg hblank]; rfl)
    obtain ⟨⟨hdigit, hpoint, he⟩, hname⟩ := hmarks c hc
    exact ⟨⟨hdigit, hpoint, he⟩, hname⟩

theorem ValueEnds.not_bracketAhead {t : List Char} (h : ValueEnds t) : ¬ BracketAhead t := by
  rintro ⟨blanks, rest, rfl, hblanks⟩
  have hopen : '(' ∈ marks := h '(' (by
    rw [List.dropWhile_append_of_pos hblanks, List.dropWhile_cons_of_neg (by decide)]
    rfl)
  exact absurd hopen (by decide)

theorem head_of_bracketAhead {t : List Char} (h : BracketAhead t) :
    ∀ c ∈ t.head?, isNameChar c = false := by
  obtain ⟨blanks, rest, rfl, hblanks⟩ := h
  cases blanks with
  | nil =>
    rintro c ⟨⟩
    decide +kernel
  | cons b blanks =>
    rintro c ⟨⟩
    exact isNameChar_of_isBlank (hblanks b List.mem_cons_self)

theorem valueEnds_of_first {width : Nat}
    (h : firstMatch Turn.operator.tried source i = some (rule, width)) :
    ValueEnds (source.drop i) := by
  have hsymbols : ∀ symbol ∈ operatorSymbols,
      ∃ c t, symbol.toList = c :: t ∧ isBlank c = false ∧ c ∈ marks := by
    intro symbol hsymbol
    simp only [operatorSymbols, List.mem_cons, List.not_mem_nil, or_false] at hsymbol
    rcases hsymbol with rfl | rfl | rfl | rfl | rfl | rfl | rfl | rfl | rfl | rfl | rfl | rfl <;>
      exact ⟨_, _, rfl, by decide, by decide⟩
  obtain ⟨hrule, hwidth⟩ := Scan.firstMatch_mem h
  simp only [Turn.tried, List.mem_cons, List.not_mem_nil, or_false] at hrule
  rcases hrule with rfl | rfl | rfl <;>
    obtain ⟨x, u, hsplit, hu, -⟩ := Scan.width?_eq_some_iff.1 hwidth
  · obtain ⟨v, hv, -⟩ := (rest?_bracket (by decide)).1 hu
    rw [ValueEnds, hv]
    rintro c ⟨⟩
    decide
  · rw [hsplit] at hu ⊢
    rw [eq_separator hu]
    rintro c ⟨⟩
    decide
  · rw [hsplit] at hu ⊢
    obtain ⟨symbol, hsymbol, rfl⟩ := exists_symbol hu
    obtain ⟨c, t, hcons, hblank, hmark⟩ := hsymbols symbol hsymbol
    rw [ValueEnds, hcons, List.cons_append, List.dropWhile_cons_of_neg (by simp [hblank])]
    rintro d ⟨⟩
    exact hmark

end Arithmetic

/-! ## The rest of a text that is read to a good end -/

namespace Grammar.Completes

variable {source : List Char} {rule : Rule} {i : Nat}

/-- Behind a value comes what ends it. -/
theorem valueEnds (h : grammar.Completes source rule i)
    (hrule : grammar.followers rule = [afterValueRule]) : ValueEnds (source.drop i) := by
  cases h with
  | done _ ended =>
    rw [List.drop_eq_nil_of_le ended]
    exact nofun
  | step _ first rest =>
    rw [hrule, Scan.first_state rfl] at first
    obtain ⟨rfl, rfl⟩ := Prod.mk.inj (Option.some.inj first)
    have hends : ValueEnds ((source.drop i).dropWhile isBlank) := by
      rw [← Scan.drop_blanks]
      cases rest with
      | done _ ended =>
        rw [List.drop_eq_nil_of_le ended]
        exact nofun
      | step _ first _ => exact valueEnds_of_first first
    have hskipped : ((source.drop i).dropWhile isBlank).dropWhile isBlank
        = (source.drop i).dropWhile isBlank :=
      List.dropWhile_eq_self_iff.2 fun hl => List.dropWhile_get_zero_not _ _ hl
    rwa [ValueEnds, hskipped] at hends

/-- Behind the name of a call comes its bracket. -/
theorem bracketAhead (h : grammar.Completes source callRule i) : BracketAhead (source.drop i) := by
  cases h with
  | done final _ => cases final
  | step _ first _ =>
    have hopen : (Turn.bracket.tried : List Rule) = grammar.followers callRule := rfl
    rw [← hopen] at first
    obtain ⟨hrule, hwidth⟩ := Scan.firstMatch_mem first
    obtain rfl := List.mem_singleton.1 hrule
    obtain ⟨x, u, hsplit, hu, -⟩ := Scan.width?_eq_some_iff.1 hwidth
    obtain ⟨v, hv, -⟩ := (rest?_bracket (by decide)).1 hu
    refine ⟨(source.drop i).takeWhile isBlank, v, ?_, fun _ => List.mem_takeWhile_imp⟩
    rw [← hv, List.takeWhile_append_dropWhile]

end Grammar.Completes

/-! ## The same matches again -/

namespace Scan

variable {source source' x u u' : List Char} {rule : Rule} {i : Nat}

/-- What a state has taken it takes again, if no more blanks come behind it. -/
theorem state_again (hrule : rule.pattern = (Pattern.mk blanks false).matcher) {next : Rule}
    (hdrop : source.drop i = x ++ u) (hdrop' : source'.drop i = x ++ u')
    (hblank : (∀ c ∈ u.head?, isBlank c = false) → ∀ c ∈ u'.head?, isBlank c = false)
    (h : firstMatch [rule] source i = some (next, x.length)) :
    firstMatch [rule] source' i = some (next, x.length) := by
  obtain ⟨hnext, hwidth⟩ := firstMatch_mem h
  obtain rfl := List.mem_singleton.1 hnext
  rw [hrule] at hwidth
  have hu : u = (x ++ u).dropWhile isBlank :=
    Option.some.inj ((rest?_of_width? hdrop hwidth).symm.trans rest?_blanks)
  have hx : (x ++ u).takeWhile isBlank = x := by
    have hsplit := @List.takeWhile_append_dropWhile _ isBlank (x ++ u)
    rw [← hu] at hsplit
    exact List.append_cancel_right hsplit
  have hblanks : ∀ c ∈ x, isBlank c = true := by
    rw [← hx]
    exact fun _ => List.mem_takeWhile_imp
  have hhead : ∀ c ∈ u'.head?, isBlank c = false :=
    hblank (by rw [hu]; exact isBlank_head?_dropWhile _)
  refine firstMatch_of [] nofun ?_
  rw [hrule]
  exact width?_of_rest? hdrop' (single_blank.run_many_append hblanks hhead rfl)

/-- **What a rule for words has taken it takes again**, if the new text is read to a good end. -/
theorem word_again {turn : Turn} (hdrop : source.drop i = x ++ u)
    (hdrop' : source'.drop i = x ++ u')
    (hblank : (∀ c ∈ u.head?, isBlank c = false) → ∀ c ∈ u'.head?, isBlank c = false)
    (h : firstMatch turn.tried source i = some (rule, x.length))
    (hcompletes : grammar.Completes source' rule (i + x.length)) :
    firstMatch turn.tried source' i = some (rule, x.length) := by
  obtain ⟨hrule, hwidth⟩ := firstMatch_mem h
  have hbehind : source'.drop (i + x.length) = u' := by
    rw [← List.drop_drop, hdrop', List.drop_left]
  have hopen (after : List Rule) (hx : openRule.pattern.width? source i = some x.length) :
      firstMatch (openRule :: after) source' i = some (openRule, x.length) := by
    obtain ⟨lead, trail, rfl, hlead, htrail, hhead⟩ :=
      exists_bracket (by decide) (rest?_of_width? hdrop hx)
    exact first_openBracket after hlead htrail (hblank hhead) hdrop'
  have hclose (hturn : turn = .value ∨ turn = .operator)
      (hx : closeRule.pattern.width? source i = some x.length) :
      firstMatch turn.tried source' i = some (closeRule, x.length) := by
    obtain ⟨lead, trail, rfl, hlead, htrail, hhead⟩ :=
      exists_bracket (by decide) (rest?_of_width? hdrop hx)
    exact first_closeBracket hturn hlead htrail (hblank hhead) hdrop'
  cases turn with
  | value =>
    simp only [Turn.tried, List.mem_cons, List.not_mem_nil, or_false] at hrule
    rcases hrule with rfl | rfl | rfl | rfl | rfl
    · exact hopen _ hwidth
    · exact hclose (.inl rfl) hwidth
    · -- The scan of the new text goes on behind the word, so what comes there cannot belong to it.
      obtain ⟨n, rfl⟩ := exists_numeral (rest?_of_width? hdrop hwidth)
      have hends : ValueEnds u' := hbehind ▸ hcompletes.valueEnds rfl
      exact first_number n (fun c hc => (hends.head c hc).1) hdrop'
    · obtain ⟨⟨n, rfl⟩, -⟩ := exists_call (rest?_of_width? hdrop hwidth)
      have hahead : BracketAhead u' := hbehind ▸ hcompletes.bracketAhead
      exact first_call n (head_of_bracketAhead hahead) hahead hdrop'
    · obtain ⟨n, rfl⟩ := exists_name (rest?_of_width? hdrop hwidth)
      have hends : ValueEnds u' := hbehind ▸ hcompletes.valueEnds rfl
      exact first_name n (fun c hc => (hends.head c hc).2) hends.not_bracketAhead hdrop'
  | operator =>
    simp only [Turn.tried, List.mem_cons, List.not_mem_nil, or_false] at hrule
    rcases hrule with rfl | rfl | rfl
    · exact hclose (.inr rfl) hwidth
    · obtain rfl := eq_separator (rest?_of_width? hdrop hwidth)
      exact first_separator hdrop'
    · obtain ⟨symbol, hsymbol, rfl⟩ := exists_symbol (rest?_of_width? hdrop hwidth)
      exact first_symbol hsymbol hdrop'
  | bracket =>
    obtain rfl := List.mem_singleton.1 hrule
    exact hopen [] hwidth

/-- The rules that are tried in a scan: a state, or the words of a turn. -/
def Tried (rules : List Rule) : Prop :=
  (∃ state : Rule, rules = [state] ∧ state.pattern = (Pattern.mk blanks false).matcher) ∨
    ∃ turn : Turn, rules = turn.tried

/-- Where no blank comes next, none does in a beginning with a closing bracket behind it. -/
theorem isBlank_head?_closed {u : List Char} (hu : ∀ c ∈ u.head?, isBlank c = false) (n : Nat) :
    ∀ c ∈ (u.take n ++ [')']).head?, isBlank c = false := by
  cases u with
  | nil =>
    rw [List.take_nil]
    rintro c ⟨⟩
    decide
  | cons d u =>
    cases n with
    | zero =>
      rintro c ⟨⟩
      decide
    | succ n => exact hu

/-- A match inside the beginning of a text is found again in the beginning with a closing bracket
behind it, if that text is read to a good end. -/
theorem match_again {rules : List Rule} (hrules : Tried rules) {width stop : Nat}
    (h : firstMatch rules source i = some (rule, width)) (hwidth : i + width ≤ stop)
    (hstop : stop ≤ source.length)
    (hcompletes : grammar.Completes (source.take stop ++ [')']) rule (i + width)) :
    firstMatch rules (source.take stop ++ [')']) i = some (rule, width) := by
  let x := (source.drop i).take width
  let u := (source.drop i).drop width
  have hlength : x.length = width := by
    rw [List.length_take, List.length_drop]
    omega
  have hdrop : source.drop i = x ++ u := (List.take_append_drop _ _).symm
  have hdrop' : (source.take stop ++ [')']).drop i = x ++ (u.take (stop - i - width) ++ [')']) := by
    have htake : (source.drop i).take (stop - i) = x ++ u.take (stop - i - width) := by
      rw [hdrop, List.take_append, hlength, List.take_of_length_le (by omega)]
    rw [List.drop_append_of_le_length (by rw [List.length_take]; omega), List.drop_take, htake,
      List.append_assoc]
  have hblank (hu : ∀ c ∈ u.head?, isBlank c = false) :
      ∀ c ∈ (u.take (stop - i - width) ++ [')']).head?, isBlank c = false :=
    isBlank_head?_closed hu _
  rw [← hlength] at h hcompletes ⊢
  rcases hrules with ⟨state, rfl, hstate⟩ | ⟨turn, rfl⟩
  · exact state_again hstate hdrop hdrop' hblank h
  · exact word_again hdrop hdrop' hblank h hcompletes

end Scan

/-! ## Walks again -/

namespace Grammar

theorem Walk.of_append {g : Grammar} {source : List Char} {start : List Rule}
    {ls more : List Lexeme} (h : g.Walk source start (ls ++ more)) : g.Walk source start ls := by
  induction more using List.reverseRecOn with
  | nil => rwa [List.append_nil] at h
  | append_singleton more l ih =>
    rw [← List.append_assoc] at h
    exact ih h.last.1

end Grammar

namespace Arithmetic

open Scan (firstMatch Tried)

variable {source : List Char} {rule : Rule} {i : Nat}

theorem grammar_values : grammar.rules.values = [numberRule, nameRule, callRule, openRule,
    closeRule, separatorRule, symbolRule, valueRule, afterValueRule] := rfl

theorem tried_followers (h : rule ∈ grammar.rules.values) : Tried (grammar.followers rule) := by
  rw [grammar_values] at h
  simp only [List.mem_cons, List.not_mem_nil, or_false] at h
  rcases h with rfl | rfl | rfl | rfl | rfl | rfl | rfl | rfl | rfl
  case inr.inr.inl => exact .inr ⟨.bracket, rfl⟩
  case inr.inr.inr.inr.inr.inr.inr.inl => exact .inr ⟨.value, rfl⟩
  case inr.inr.inr.inr.inr.inr.inr.inr => exact .inr ⟨.operator, rfl⟩
  all_goals exact .inl ⟨_, rfl, rfl⟩

/-- Behind any rule but that of calls, a closing bracket may end the text. -/
theorem completes_close (h : rule ∈ grammar.rules.values) (hcall : rule ≠ callRule)
    (hdrop : source.drop i = [')']) : grammar.Completes source rule i := by
  have hlength : source.length = i + 1 := by
    have hone := congrArg List.length hdrop
    rw [List.length_drop, List.length_singleton] at hone
    omega
  have inside : i < source.length := by omega
  have word {r : Rule} {turn : Turn} (hturn : turn = .value ∨ turn = .operator)
      (hfollowers : grammar.followers r = turn.tried) : grammar.Completes source r i := by
    have hfirst : firstMatch turn.tried source i = some (closeRule, 1) :=
      @Scan.first_closeBracket source [] i turn hturn [] [] nofun nofun nofun hdrop
    exact .step inside (hfollowers ▸ hfirst) (.done rfl (Nat.le_of_eq hlength))
  have state {r : Rule} {turn : Turn} (hturn : turn = .value ∨ turn = .operator)
      (hr : r.pattern = (Pattern.mk blanks false).matcher)
      (hnext : grammar.followers r = turn.tried)
      (hfollowers : grammar.followers rule = [r]) : grammar.Completes source rule i := by
    have hfirst := Scan.first_state hr source i
    rw [hdrop] at hfirst
    exact .step inside (hfollowers ▸ hfirst) (word hturn hnext)
  rw [grammar_values] at h
  simp only [List.mem_cons, List.not_mem_nil, or_false] at h
  rcases h with rfl | rfl | rfl | rfl | rfl | rfl | rfl | rfl | rfl
  · exact state (.inr rfl) rfl rfl rfl
  · exact state (.inr rfl) rfl rfl rfl
  · exact absurd rfl hcall
  · exact state (.inl rfl) rfl rfl rfl
  · exact state (.inr rfl) rfl rfl rfl
  · exact state (.inl rfl) rfl rfl rfl
  · exact state (.inl rfl) rfl rfl rfl
  · exact word (.inl rfl) rfl
  · exact word (.inr rfl) rfl

/-- **The lexemes of a walk are found again** where a closing bracket stands behind them, unless the
last one is the name of a call. -/
theorem completes_again {all before after : List Lexeme} {l : Lexeme}
    (hwalk : grammar.Walk source [valueRule] all)
    (hcall : ∀ last ∈ all.getLast?, last.rule ≠ callRule) (hall : all = before ++ l :: after) :
    grammar.Completes (source.take (covered all) ++ [')']) l.rule (covered (before ++ [l])) := by
  have hlength : (source.take (covered all)).length = covered all := by
    rw [List.length_take]
    exact Nat.min_eq_left hwalk.covered_le
  have hrule : l.rule ∈ grammar.rules.values := by
    obtain ⟨⟨reached, hreached⟩, -⟩ := hwalk.of_mem l (by simp [hall])
    exact Grammar.Walk.mem_values rfl hreached
  induction after generalizing before l with
  | nil =>
    have hlast : l.rule ≠ callRule := hcall l (by rw [hall, List.getLast?_concat]; rfl)
    refine completes_close hrule hlast ?_
    rw [← hall, List.drop_left' hlength]
  | cons next after ih =>
    have hnext : all = before ++ [l] ++ next :: after := by simp [hall]
    have hthrough : all = before ++ [l] ++ [next] ++ after := by simp [hall]
    have hwalk' : grammar.Walk source [valueRule] (before ++ [l] ++ [next] ++ after) :=
      hthrough ▸ hwalk
    obtain ⟨-, -, -, hfirst⟩ := hwalk'.of_append.last
    rw [Grammar.reached_concat] at hfirst
    have hcovered : covered (before ++ [l]) + next.width ≤ covered all := by
      rw [hthrough, Lexeme.covered_append _ after, Lexeme.covered_concat _ next]
      exact Nat.le_add_right _ _
    have hcompletes : grammar.Completes (source.take (covered all) ++ [')']) next.rule
        (covered (before ++ [l]) + next.width) := by
      rw [← Lexeme.covered_concat]
      exact ih hnext (Grammar.mem_values_of_mem_followers (Scan.firstMatch_mem hfirst).1)
    have hinside : covered (before ++ [l]) < (source.take (covered all) ++ [')']).length := by
      rw [List.length_append, hlength, List.length_singleton]
      omega
    exact .step hinside (Scan.match_again (tried_followers hrule) hfirst hcovered hwalk.covered_le
      hcompletes) hcompletes

end Arithmetic

/-! ## Errors -/

namespace Arithmetic

variable {source : String} {limit : Int} {keep : Bool} {ls : List Lexeme} {e : LexError}

theorem find?_name : ∀ rule ∈ grammar.rules.values, grammar.rules.find? rule.name = some rule := by
  intro rule hrule
  rw [grammar_values] at hrule
  simp only [List.mem_cons, List.not_mem_nil, or_false] at hrule
  rcases hrule with rfl | rfl | rfl | rfl | rfl | rfl | rfl | rfl | rfl <;> rfl

/-- Where a scan fails, it is not directly behind the name of a call, since that has its bracket. -/
theorem last_ne_call (hwalk : grammar.Walk source.toList [valueRule] ls)
    (h : Scan.advance ⟨grammar, source, limit, keep⟩ [valueRule] ls = .inl (.error (.lex e))) :
    ∀ last ∈ ls.getLast?, last.rule ≠ callRule := by
  intro last hlast hcall
  obtain ⟨before, rfl⟩ := List.getLast?_eq_some_iff.1 (Option.mem_def.1 hlast)
  obtain ⟨-, -, -, hfirst⟩ := hwalk.last
  have hwidth := (Scan.firstMatch_mem hfirst).2
  rw [hcall] at hwidth
  obtain ⟨x, u, hdrop, hu, hlength⟩ := Scan.width?_eq_some_iff.1 hwidth
  obtain ⟨-, hahead⟩ := exists_call (hdrop ▸ hu)
  have hbehind : source.toList.drop (covered (before ++ [last])) = u := by
    rw [Lexeme.covered_concat, ← List.drop_drop, hdrop, hlength, List.drop_left]
  obtain ⟨-, -, ⟨-, hnone⟩ | ⟨hend, -⟩⟩ := Scan.advance_eq_lex h
  · rw [Grammar.reached_concat, hcall] at hnone
    obtain ⟨blanks, rest, hsplit, hblanks⟩ := hahead
    have hopen : openRule.pattern.width? source.toList (covered (before ++ [last])) = none :=
      Option.map_eq_none_iff.1 (List.findSome?_eq_none_iff.1 hnone openRule List.mem_cons_self)
    have hfails := Scan.width?_eq_none_iff.1 hopen
    rw [hbehind] at hfails
    have htaken : (Pattern.mk (bracket '(') false).rest? u = some (rest.dropWhile isBlank) := by
      refine (rest?_bracket (by decide)).2 ⟨rest, ?_, rfl⟩
      rw [hsplit, List.dropWhile_append_of_pos hblanks, List.dropWhile_cons_of_neg (by decide)]
    cases hfails.symm.trans htaken
  · rw [← hbehind, List.drop_eq_nil_of_le hend] at hahead
    exact not_bracketAhead_nil hahead

/-- As far as a walk has come that is not directly behind the name of a call, a text with a closing
bracket there is accepted. -/
theorem parse_close (hlimit : 1 ≤ limit) (hwalk : grammar.Walk source.toList [valueRule] ls)
    (hne : ls ≠ []) (hcall : ∀ last ∈ ls.getLast?, last.rule ≠ callRule) (keep : Bool) :
    ∃ tokens, grammar.parse (String.ofList (source.toList.take (covered ls)) ++ ")") limit keep
      = .ok tokens := by
  obtain ⟨l, after, rfl⟩ := List.exists_cons_of_ne_nil hne
  let closed := String.ofList (source.toList.take (covered (l :: after))) ++ ")"
  have htext : closed.toList = source.toList.take (covered (l :: after)) ++ [')'] := by
    rw [String.toList_append, String.toList_ofList]
    rfl
  have hbegin : grammar.Walk source.toList [valueRule] ([] ++ [l] ++ after) := hwalk
  obtain ⟨-, -, -, hfirst⟩ := hbegin.of_append.last
  have hwidth : 0 + l.width ≤ covered ([] ++ [l] ++ after) := by
    rw [Lexeme.covered_append, Lexeme.covered_concat]
    exact Nat.le_add_right _ _
  have hcompletes : grammar.Completes closed.toList l.rule (0 + l.width) := by
    rw [htext, ← Lexeme.covered_nil, ← Lexeme.covered_concat]
    exact completes_again hwalk hcall rfl
  have hagain : Scan.firstMatch [valueRule] closed.toList 0 = some (l.rule, l.width) := by
    rw [htext] at hcompletes ⊢
    exact Scan.match_again (.inl ⟨valueRule, rfl, rfl⟩) hfirst hwidth hwalk.covered_le hcompletes
  have hg : grammar.Hookless := reading_operator ▸ hookless_reading _
  have hclosed : closed.toList ≠ [] := by
    rw [htext]
    exact List.concat_ne_nil _ _
  rw [Nat.zero_add] at hcompletes
  refine hg.parse_of_completes check_grammar rfl hclosed hagain hcompletes
    (fun walked hwalked => ?_) keep
  rw [← reading_operator] at hwalked
  exact (moving_walk reads_operator (by decide) hwalked).1.within hlimit

/-- **A lexical error never blames good input.**  Its offset lies in the text or at its end, none of
the rules that it names matches there, and what comes before it is the beginning of a text that is
accepted: a closing bracket behind it is enough. -/
theorem lex_error_viable (hlimit : 1 ≤ limit)
    (h : grammar.parse source limit keep = .error (.lex e)) :
    0 ≤ e.index ∧ e.index ≤ source.length ∧
      (e.index < source.length → ∀ name ∈ e.expected, ∃ rule,
        grammar.rules.find? name = some rule ∧
          rule.pattern.width? source.toList e.index.toNat = none) ∧
      ∃ tokens, grammar.parse (String.ofList (source.toList.take e.index.toNat) ++ ")") limit keep
        = .ok tokens := by
  have hg : grammar.Hookless := reading_operator ▸ hookless_reading _
  obtain ⟨ls, result, hwalk, hresult, hscan⟩ := Grammar.exists_walk hg
    (show grammar.entryRules = .ok [valueRule] from rfl) .nil (@Grammar.roundsLeft_nil source limit)
  rw [hg.parse_of_ends check_grammar rfl ⟨_, hscan keep⟩] at h
  cases result with
  | ok u => cases h
  | error failure =>
    obtain rfl : failure = .lex e := Except.error.inj h
    obtain ⟨hindex, hexpected, hplace⟩ := Scan.advance_eq_lex (hresult keep)
    have hcovered : covered ls ≤ source.toList.length := hwalk.covered_le
    rw [hindex, Int.toNat_natCast, ← String.length_toList]
    refine ⟨Int.natCast_nonneg _, Int.ofNat_le.2 hcovered, fun hinside name hname => ?_, ?_⟩
    · obtain ⟨rule, hrule, rfl⟩ := hexpected name hname
      rcases hplace with ⟨-, hnone⟩ | ⟨hend, -⟩
      · exact ⟨rule, find?_name rule (Grammar.Walk.mem_values rfl hrule),
          Option.map_eq_none_iff.1 (List.findSome?_eq_none_iff.1 hnone rule hrule)⟩
      · exact absurd (Int.ofNat_lt.1 hinside) (Nat.not_lt.2 hend)
    · refine parse_close hlimit hwalk (fun hnil => ?_) (last_ne_call hwalk (hresult keep)) keep
      subst hnil
      rcases hplace with ⟨-, hnone⟩ | ⟨-, l, hl, -⟩
      · cases hnone.symm.trans (Scan.first_state rfl source.toList 0)
      · cases hl

/-- In `1 + * 2` the second operator is blamed, and `1 + )` is read. -/
theorem lex_error_viable_operators :
    ∃ e, grammar.parse "1 + * 2" 100 false = .error (.lex e) ∧ e.index = 4 ∧
      ∃ tokens, grammar.parse "1 + )" 100 false = .ok tokens := by
  let e : LexError :=
    ⟨.expecting ["openBracket", "closeBracket", "number", "funcCall", "variable"], 4, "1 + * 2"⟩
  have herror : grammar.parse "1 + * 2" 100 false = .error (.lex e) := by decide +kernel
  have htext : String.ofList ("1 + * 2".toList.take e.index.toNat) ++ ")" = "1 + )" := by decide
  obtain ⟨-, -, -, tokens, htokens⟩ := lex_error_viable (by decide) herror
  exact ⟨e, herror, rfl, tokens, htext ▸ htokens⟩

end Arithmetic

end Polish
