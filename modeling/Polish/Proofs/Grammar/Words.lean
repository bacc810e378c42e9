import Polish.Proofs.Grammar.Lexemes
import Polish.Proofs.Grammar.Sentences
import Polish.Proofs.Text.Separated

/-!
# Words with spaces between them

A `Word` is a lexeme with the kind that it is meant to be read as, and `Word.joined` is the text of
some words with single spaces between them.  After each word such a text goes on with a space, or it
is over, and that settles what the patterns make of the word:

* no number or name can go on behind it (`Word.head?_spaced`);
* a name is a call exactly if the next word is its bracket (`Word.bracketAhead_spaced`,
  `Word.not_bracketAhead_spaced`).

## How the proof goes

A word is defined by what patterns take (`IsLexeme`), so that a text can be asked whether it is one
without being taken apart.  What is used of it is its shape: by the theorems on the lexemes of the
grammar it is the writing of a number or a name, or it stands in a table of symbols.  From the shape
it is read off that a word is not empty and has no blank in it, and these two facts are what keeps
words apart.
-/

set_option autoImplicit false

namespace Polish

/-- A lexeme with the kind that it is meant to be read as. -/
structure Word where
  kind : Kind
  text : String

open Arithmetic
open Text (isBlank isDigit)

namespace Word

variable {w : Word} {ws : List Word}

def chars (w : Word) : List Char := w.text.toList

/-- The text is a lexeme of the kind: the pattern for numbers, names or operators can take the whole
of it, or it is the bracket or the separator. -/
def IsLexeme (w : Word) : Prop :=
  match w.kind with
  | .number => numberRule.pattern.matchesAll w.text = true
  | .constant | .call => nameRule.pattern.matchesAll w.text = true
  | .operator => symbolRule.pattern.matchesAll w.text = true
  | .openBracket => w.text = "("
  | .closeBracket => w.text = ")"
  | .separator => w.text = ","
  | .other _ => False

instance : DecidablePred IsLexeme
  | ⟨.number, text⟩ => inferInstanceAs (Decidable (numberRule.pattern.matchesAll text = true))
  | ⟨.constant, text⟩ | ⟨.call, text⟩ =>
    inferInstanceAs (Decidable (nameRule.pattern.matchesAll text = true))
  | ⟨.operator, text⟩ => inferInstanceAs (Decidable (symbolRule.pattern.matchesAll text = true))
  | ⟨.openBracket, text⟩ => inferInstanceAs (Decidable (text = "("))
  | ⟨.closeBracket, text⟩ => inferInstanceAs (Decidable (text = ")"))
  | ⟨.separator, text⟩ => inferInstanceAs (Decidable (text = ","))
  | ⟨.other _, _⟩ => inferInstanceAs (Decidable False)

/-- Words with single spaces between them, the first one behind a gap. -/
def spaced (gap : List Char) : List Word → List Char
  | [] => []
  | w :: ws => gap ++ (w.chars ++ spaced [' '] ws)

/-- The text of words that are joined by single spaces. -/
def joined (ws : List Word) : String := " ".intercalate (ws.map text)

theorem spaced_eq_flatMap (ws : List Word) :
    spaced [' '] ws = (ws.map chars).flatMap ([' '] ++ ·) := by
  induction ws with
  | nil => rfl
  | cons w ws ih => rw [spaced, ih, List.map_cons, List.flatMap_cons, List.append_assoc]

theorem toList_joined (ws : List Word) : (joined ws).toList = spaced [] ws := by
  rw [joined, String.toList_intercalate, List.map_map]
  cases ws with
  | nil => rfl
  | cons w ws =>
    rw [List.map_cons, Text.intercalate_cons, spaced, spaced_eq_flatMap]
    rfl

/-! ## What lexemes are made of -/

/-- If whatever a pattern takes is a lexeme, then a text that it matches as a whole is one. -/
theorem exists_of_matchesAll {α : Type} {p : Pattern} {chars : α → List Char}
    (htakes : ∀ {s u : List Char} {k : Regex.Goal}, p.regex.run p.ignoreCase s k = some u →
      ∃ (a : α) (rest : List Char), s = chars a ++ rest ∧ k rest = some u)
    {text : String} (h : p.matchesAll text = true) : ∃ a, text.toList = chars a := by
  obtain ⟨u, hu⟩ := Option.isSome_iff_exists.1 h
  obtain ⟨a, rest, heq, hrest⟩ := htakes hu
  obtain ⟨hempty, -⟩ := Option.ite_none_right_eq_some.1 hrest
  rw [List.isEmpty_iff.1 hempty, List.append_nil] at heq
  exact ⟨a, heq⟩

theorem IsLexeme.numeral (h : w.IsLexeme) (hk : w.kind = .number) :
    ∃ n : Numeral, w.chars = n.chars := by
  rw [IsLexeme, hk] at h
  exact exists_of_matchesAll exists_numeral_of_run h

theorem IsLexeme.name (h : w.IsLexeme) (hk : w.kind = .constant ∨ w.kind = .call) :
    ∃ n : Name, w.chars = n.chars := by
  have hmatches : nameRule.pattern.matchesAll w.text = true := by
    rw [IsLexeme] at h
    rcases hk with hk | hk <;> rwa [hk] at h
  exact exists_of_matchesAll exists_name_of_run hmatches

theorem IsLexeme.operator (h : w.IsLexeme) (hk : w.kind = .operator) :
    w.text ∈ operatorSymbols := by
  rw [IsLexeme, hk] at h
  exact (Pattern.matchesAll_iff reads_operator w.text).1 h

/-- A lexeme is a number, a name, or one of a few fixed texts. -/
theorem IsLexeme.shape (h : w.IsLexeme) :
    (∃ n : Numeral, w.chars = n.chars) ∨ (∃ n : Name, w.chars = n.chars) ∨
      w.text ∈ operatorSymbols ++ ["(", ")", ","] := by
  cases hk : w.kind with
  | number => exact .inl (h.numeral hk)
  | constant => exact .inr (.inl (h.name (.inl hk)))
  | call => exact .inr (.inl (h.name (.inr hk)))
  | operator => exact .inr (.inr (List.mem_append_left _ (h.operator hk)))
  | openBracket | closeBracket | separator =>
    rw [IsLexeme, hk] at h
    exact .inr (.inr (by rw [h]; decide))
  | other =>
    rw [IsLexeme, hk] at h
    exact h.elim

/-- No lexeme has blanks in it. -/
theorem IsLexeme.isBlank_chars (h : w.IsLexeme) : ∀ c ∈ w.chars, isBlank c = false := by
  have hfixed : ∀ text ∈ operatorSymbols ++ ["(", ")", ","],
      (text.toList.all fun c => !isBlank c) = true := by decide
  rcases h.shape with ⟨n, hn⟩ | ⟨n, hn⟩ | htext
  · rw [hn]
    exact n.isBlank_chars
  · rw [hn]
    exact n.isBlank_chars
  · simpa [Word.chars] using hfixed w.text htext

/-- No lexeme is empty. -/
theorem IsLexeme.chars_ne_nil (h : w.IsLexeme) : w.chars ≠ [] := by
  have hfixed : ∀ text ∈ operatorSymbols ++ ["(", ")", ","], text.toList ≠ [] := by decide
  rcases h.shape with ⟨n, hn⟩ | ⟨n, hn⟩ | htext
  · obtain ⟨c, t, heq, -⟩ := n.exists_cons
    rw [hn, heq]
    exact List.cons_ne_nil c t
  · rw [hn]
    exact List.cons_ne_nil _ _
  · exact hfixed w.text htext

theorem strip_eq_self {s : String} (h : ∀ c ∈ s.toList, isBlank c = false) : Text.strip s = s := by
  rw [Text.strip, Text.trimChars_eq_self h, String.ofList_toList]

/-! ## What comes behind a word -/

/-- What comes behind a word begins with a space. -/
theorem head?_spaced (ws : List Word) : ∀ c ∈ (spaced [' '] ws).head?, c = ' ' := by
  cases ws with
  | nil => nofun
  | cons w ws => rintro c ⟨⟩; rfl

/-- Without the space, it begins with no blank. -/
theorem isBlank_head?_spaced (hws : ∀ w ∈ ws, w.IsLexeme) :
    ∀ c ∈ (spaced [] ws).head?, isBlank c = false := by
  cases ws with
  | nil => nofun
  | cons w ws =>
    have hw := hws w List.mem_cons_self
    obtain ⟨d, t, heq⟩ := List.exists_cons_of_ne_nil hw.chars_ne_nil
    rintro c hc
    rw [spaced, List.nil_append, heq] at hc
    obtain rfl := Option.some.inj hc
    exact hw.isBlank_chars d (heq ▸ List.mem_cons_self)

/-- The space before a word, if there is a word. -/
theorem exists_trail (ws : List Word) :
    ∃ trail, (trail = [] ∨ trail = [' ']) ∧ spaced [' '] ws = trail ++ spaced [] ws := by
  cases ws with
  | nil => exact ⟨[], .inl rfl, rfl⟩
  | cons w ws => exact ⟨[' '], .inr rfl, rfl⟩

/-- A word that may follow a name that is no call does not begin with a bracket. -/
theorem not_bracketAhead_spaced (hws : ∀ w ∈ ws, w.IsLexeme)
    (hends : Turn.operator.through (ws.map kind) = some .operator) :
    ¬ BracketAhead (spaced [' '] ws) := by
  cases ws with
  | nil => exact not_bracketAhead_nil
  | cons w ws =>
    have hw := hws w List.mem_cons_self
    obtain ⟨c, t, heq⟩ := List.exists_cons_of_ne_nil hw.chars_ne_nil
    have hblank : isBlank c = false := hw.isBlank_chars c (heq ▸ List.mem_cons_self)
    -- Only an operator, a separator or a closing bracket may come here.
    have hopen : c ≠ '(' := by
      have hsymbols : ∀ symbol ∈ operatorSymbols, '(' ∉ symbol.toList := by decide
      obtain ⟨turn', hnext, -⟩ := Turn.through_cons_eq_some.1 hends
      rintro rfl
      have hmem : '(' ∈ w.chars := heq ▸ List.mem_cons_self
      cases hk : w.kind with
      | operator => exact hsymbols w.text (hw.operator hk) hmem
      | separator | closeBracket =>
        rw [IsLexeme, hk] at hw
        rw [chars, hw] at hmem
        exact absurd hmem (by decide)
      | number | constant | call | openBracket | other =>
        rw [hk] at hnext
        cases hnext
    rw [spaced, heq, List.singleton_append, List.cons_append, bracketAhead_cons, bracketAhead_cons]
    rintro (hspace | ⟨-, hc | ⟨hc, -⟩⟩)
    · exact absurd hspace (by decide)
    · exact hopen hc
    · rw [hblank] at hc
      cases hc

/-- The word behind the name of a call is its bracket. -/
theorem bracketAhead_spaced (hws : ∀ w ∈ ws, w.IsLexeme)
    (hends : Turn.bracket.through (ws.map kind) = some .operator) :
    BracketAhead (spaced [' '] ws) := by
  cases ws with
  | nil => cases hends
  | cons w ws =>
    have hw := hws w List.mem_cons_self
    obtain ⟨turn', hnext, -⟩ := Turn.through_cons_eq_some.1 hends
    cases hk : w.kind with
    | openBracket =>
      rw [IsLexeme, hk] at hw
      rw [spaced, chars, hw]
      exact bracketAhead_cons.2 (.inr ⟨by decide, bracketAhead_cons.2 (.inl rfl)⟩)
    | number | constant | call | operator | closeBracket | separator | other =>
      rw [hk] at hnext
      cases hnext

end Word

end Polish
