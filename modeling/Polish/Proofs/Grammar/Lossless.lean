import Polish.Proofs.Grammar.Turns
import Polish.Proofs.Grammar.Walk
import Polish.Proofs.Stepwise

/-!
# Nothing of a text is lost

When the tokens of ignored rules are kept, the tokens of a text are the text, cut into pieces.

* `Grammar.Walk.chars_flatten` and `Grammar.Walk.offset_eq` — the lexemes of a walk lie in the text
  one behind the other, without gaps, and each begins where the ones before it end;
* `Grammar.parse_lossless` — so the texts of the tokens are the text again, and the shorter result,
  in which the ignored tokens are left out, is made of the same lexemes.

## How the proof goes

A scan goes on where its match ends as long as no hook says otherwise, so a walk covers the text
from the beginning, and the induction is on the walk.  A run that keeps the tokens of ignored rules
and one that does not are the same walk; what is kept is decided only when the tokens are made of
the lexemes (`parse_eq_walk`).
-/

set_option autoImplicit false

namespace Polish

open Lexeme (covered)

namespace Lexeme

/-- What the tokens of lexemes have in common with the lexemes themselves. -/
theorem map_tokens {β : Type} {source : List Char} {f : Token → β} {g : Lexeme → β}
    (h : ∀ i l, f (token source i l) = g l) (ls : List Lexeme) :
    (tokens source ls).map f = ls.map g := by
  refine List.ext_getElem (by simp [tokens]) fun i h₁ h₂ => ?_
  rw [List.getElem_map, List.getElem_map]
  simp only [tokens, List.getElem_mapIdx]
  exact h i _

theorem take_tokens (source : List Char) (ls : List Lexeme) (n : Nat) :
    (tokens source ls).take n = tokens source (ls.take n) := by
  refine List.ext_getElem (by simp [tokens]) fun i h₁ h₂ => ?_
  rw [List.getElem_take]
  simp only [tokens, List.getElem_mapIdx, List.getElem_take]

end Lexeme

/-! ## The lexemes of a walk -/

namespace Grammar

variable {g : Grammar} {source : List Char} {start : List Rule} {ls : List Lexeme}

/-- The lexemes of a walk, put together, are the text as far as the walk has come. -/
theorem Walk.chars_flatten (h : g.Walk source start ls) :
    (ls.map (Lexeme.chars source)).flatten = source.take (covered ls) := by
  induction h with
  | nil => rfl
  | @concat ls rule width before inside first ih =>
    rw [List.map_append, List.flatten_append, ih, Lexeme.covered_concat, List.take_add,
      List.map_singleton, List.flatten_singleton]
    rfl

/-- Each lexeme of a walk begins inside the text and is a match of its rule, which is one of those
that might come next. -/
theorem Walk.of_mem (h : g.Walk source start ls) : ∀ l ∈ ls,
    (∃ before, l.rule ∈ g.reached start before) ∧
      l.rule.pattern.width? source l.offset = some l.width ∧ l.offset < source.length := by
  induction h with
  | nil => simp
  | @concat ls rule width before inside first ih =>
    intro l hl
    rw [List.mem_append, List.mem_singleton] at hl
    rcases hl with hl | rfl
    · exact ih l hl
    · obtain ⟨hrule, hwidth⟩ := Scan.firstMatch_mem first
      exact ⟨⟨ls, hrule⟩, hwidth, inside⟩

/-- Each lexeme of a walk is as long as its match, since matches lie inside the text. -/
theorem Walk.length_chars (h : g.Walk source start ls) :
    ∀ l ∈ ls, (l.chars source).length = l.width := by
  intro l hl
  rw [Lexeme.chars, List.length_take]
  exact Nat.min_eq_left (l.rule.pattern.width?_le _ _ _ (h.of_mem l hl).2.1)

/-- Each lexeme of a walk begins where the ones before it end. -/
theorem Walk.offset_eq (h : g.Walk source start ls) :
    ∀ i (hi : i < ls.length), ls[i].offset = covered (ls.take i) := by
  induction h with
  | nil => simp
  | @concat ls rule width before inside first ih =>
    intro i hi
    rw [List.length_append, List.length_singleton] at hi
    rcases Nat.lt_or_ge i ls.length with hlt | hge
    · rw [List.getElem_append_left hlt, List.take_append_of_le_length (Nat.le_of_lt hlt)]
      exact ih i hlt
    · obtain rfl : i = ls.length := by omega
      rw [List.getElem_concat_length rfl, List.take_left]

/-! ## The tokens of a text -/

/-- A text that a walk has gone through is made of the texts of its tokens. -/
theorem Walk.join_tokens {source : String} (h : g.Walk source.toList start ls)
    (hend : source.toList.length ≤ covered ls) :
    String.join ((Lexeme.tokens source.toList ls).map Token.text) = source := by
  have htexts : (Lexeme.tokens source.toList ls).map (fun t => t.text.toList)
      = ls.map (Lexeme.chars source.toList) :=
    Lexeme.map_tokens (fun i l => String.toList_ofList) ls
  rw [← String.toList_inj, String.toList_join, List.flatMap_map, List.flatMap_def, htexts,
    h.chars_flatten, List.take_of_length_le hend]

/-- **Every token of a text is a match of a rule** whose tokens are kept, and it begins inside the
text. -/
theorem Hookless.exists_lexeme (hg : g.Hookless) {source : String} {limit : Int}
    {keepIgnored : Bool} {tokens : List Token}
    (h : g.parse source limit keepIgnored = .ok tokens) {t : Token} (ht : t ∈ tokens) :
    ∃ (l : Lexeme) (handle : Nat), t = l.token source.toList handle ∧ l.rule ∈ g.rules.values ∧
      Scan.keeps keepIgnored l = true ∧
      l.rule.pattern.width? source.toList l.offset = some l.width ∧
      l.offset < source.toList.length := by
  rcases parse_eq_walk hg source limit with ⟨defect, hdefect⟩ | ⟨start, ls, result, hstart, hwalk,
    -, hparse⟩
  · rw [hdefect keepIgnored] at h
    cases h
  · rw [hparse keepIgnored] at h
    cases result with
    | error failure => cases h
    | ok u =>
      obtain rfl := Except.ok.inj h
      obtain ⟨i, hi, rfl⟩ := List.mem_mapIdx.1 ht
      obtain ⟨hl, hkeeps⟩ := List.mem_filter.1 (List.getElem_mem hi)
      obtain ⟨⟨before, hrule⟩, hwidth⟩ := hwalk.of_mem _ hl
      exact ⟨_, i, rfl, Walk.mem_values hstart hrule, hkeeps, hwidth⟩

/-- The token of a walk's lexeme stands behind the texts of the tokens before it. -/
theorem Walk.pos_tokens (h : g.Walk source start ls) (i : Nat)
    (hi : i < (Lexeme.tokens source ls).length) :
    (Lexeme.tokens source ls)[i].pos
      = (((Lexeme.tokens source ls).take i).map fun t => t.text.length).sum := by
  have hlength : (((Lexeme.tokens source ls).take i).map fun t => t.text.length)
      = (ls.take i).map fun l => (l.chars source).length := by
    rw [Lexeme.take_tokens]
    exact Lexeme.map_tokens (fun _ l => String.length_ofList) _
  have hwidth : ((ls.take i).map fun l => (l.chars source).length)
      = (ls.take i).map Lexeme.width :=
    List.map_congr_left fun l hl => h.length_chars l (List.mem_of_mem_take hl)
  rw [Lexeme.length_tokens] at hi
  rw [hlength, hwidth]
  simp only [Lexeme.tokens, List.getElem_mapIdx, Lexeme.token]
  rw [h.offset_eq i hi, covered]

/-- **Reading a text loses nothing.**  For a grammar without hooks, the tokens of a text, ignored
ones included, are the text in pieces, each at its place and numbered from zero.  Leaving out the
tokens of ignored rules changes neither whether the text is read nor what is wrong with it: what is
left are the tokens of the other lexemes, numbered anew. -/
theorem parse_lossless (g : Grammar) (hg : g.Hookless) (source : String) (limit : Int) :
    (∀ error, g.parse source limit true = .error error →
        g.parse source limit false = .error error) ∧
      ∀ tokens, g.parse source limit true = .ok tokens →
        String.join (tokens.map Token.text) = source ∧
        (∀ i (h : i < tokens.length),
          tokens[i].pos = ((tokens.take i).map fun t => t.text.length).sum) ∧
        tokens.map Token.handle = List.range tokens.length ∧
        ∃ start lexemes, g.entryRules = .ok start ∧ g.Walk source.toList start lexemes ∧
          tokens = Lexeme.tokens source.toList lexemes ∧
          g.parse source limit false
            = .ok (Lexeme.tokens source.toList (lexemes.filter fun l => !l.rule.ignore)) := by
  rcases parse_eq_walk hg source limit with ⟨defect, hdefect⟩ | ⟨start, ls, result, hstart, hwalk,
    hresult, hparse⟩
  · rw [hdefect true, hdefect false]
    exact ⟨fun error h => h, nofun⟩
  · have hall : ls.filter (Scan.keeps true) = ls := List.filter_eq_self.2 fun _ _ => rfl
    rw [hparse true, hparse false, hall]
    cases result with
    | error failure => exact ⟨fun error h => h, nofun⟩
    | ok u =>
      refine ⟨nofun, fun tokens h => ?_⟩
      obtain rfl := Except.ok.inj h
      have hend := (Scan.advance_eq_ok (hresult true)).1
      refine ⟨hwalk.join_tokens hend, hwalk.pos_tokens, ?_, start, ls, hstart, hwalk, rfl, rfl⟩
      rw [Lexeme.map_handle_tokens, Lexeme.length_tokens]

/-- In `f( 1)` the blank before the number belongs to the bracket, and there is an empty lexeme
wherever the grammar changes its state. -/
theorem parse_lossless_call :
    Arithmetic.grammar.Hookless ∧
      ∃ tokens, Arithmetic.grammar.parse "f( 1)" 100 true = .ok tokens ∧
        tokens.map Token.text = ["", "f", "( ", "", "1", "", ")"] ∧
        String.join (tokens.map Token.text) = "f( 1)" ∧
        tokens.map Token.handle = List.range tokens.length := by
  have hg : Arithmetic.grammar.Hookless :=
    Arithmetic.reading_operator ▸ Arithmetic.hookless_reading _
  let tokens : List Token := [⟨.other "value", "", 0, 0⟩, ⟨.call, "f", 0, 1⟩,
    ⟨.openBracket, "( ", 1, 2⟩, ⟨.other "value", "", 3, 3⟩, ⟨.number, "1", 3, 4⟩,
    ⟨.operator, "", 4, 5⟩, ⟨.closeBracket, ")", 4, 6⟩]
  have hparse : Arithmetic.grammar.parse "f( 1)" 100 true = .ok tokens :=
    toOption_eq_some.1 (by decide +kernel)
  obtain ⟨hjoin, -, hhandles, -⟩ :=
    (parse_lossless Arithmetic.grammar hg "f( 1)" 100).2 tokens hparse
  exact ⟨hg, tokens, hparse, rfl, hjoin, hhandles⟩

end Grammar

end Polish
