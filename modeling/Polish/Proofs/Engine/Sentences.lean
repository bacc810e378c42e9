import Polish.Proofs.Compile.Blame
import Polish.Proofs.Grammar.ReadBack

/-!
# What the arithmetic grammar accepts

`Arithmetic.reads_sentences` puts both directions together: every text that the arithmetic grammar
accepts is a sentence, and every sentence can be written down with lexemes of one's choice and is
read back.  In a sentence every call has its bracket behind it, so no compilation of a text can miss
one (`Sentence.bracket_of_call`).

## How the proof goes

One half is `Arithmetic.sentence_of_parse`: what the scan lets come next is what the turns allow.
For the other half a sentence of kinds is given with a lexeme for each, and
`Arithmetic.parse_joined` scans the text that they make with a blank or more between them.  Blanks
are needed there, since without them two lexemes might be read as one; that they do no harm is a
matter of the bracket rules, which take the blanks around them along.
-/

set_option autoImplicit false

namespace Polish

open Compile

theorem Turn.bracket_of_call {turn : Turn} {tokens : List Token} {before : Option Token}
    {index : Nat} (h : turn.through (tokens.map Token.kind) = some .operator) :
    ∀ place ∈ placesFrom before index tokens, place.token.kind = .call →
      isKind .openBracket place.after = true := by
  intro place hplace hk
  induction tokens generalizing turn before index with
  | nil => cases hplace
  | cons t rest ih =>
    obtain ⟨turn', hnext, hrest⟩ := Turn.through_cons_eq_some.1 h
    rcases List.mem_cons.1 hplace with rfl | hplace
    · -- A name that is a call leaves the turn to its bracket, with which no text ends.
      have hk : t.kind = .call := hk
      have hturn' : turn' = .bracket := by
        rw [hk] at hnext
        cases turn <;> cases hnext
        rfl
      subst hturn'
      cases rest with
      | nil => cases hrest
      | cons t' rest =>
        obtain ⟨turn'', hnext', -⟩ := Turn.through_cons_eq_some.1 hrest
        have hk' : t'.kind = .openBracket := by
          cases hk' : t'.kind <;> rw [hk'] at hnext' <;> cases hnext'
        simp [isKind, hk']
    · exact ih hrest hplace

/-- In a sentence, a bracket follows each call. -/
theorem Sentence.bracket_of_call {tokens : List Token} (h : Sentence (tokens.map Token.kind)) :
    ∀ place ∈ places tokens, place.token.kind = .call →
      isKind .openBracket place.after = true := by
  intro place hplace
  rcases sentence_iff.1 h with hnil | hends
  · rw [List.map_eq_nil_iff.1 hnil] at hplace
    cases hplace
  · exact Turn.bracket_of_call hends place hplace

/-- **The arithmetic grammar accepts the sentences.**  The kinds of the tokens of a text make a
sentence, so that no compilation of them misses the bracket of a call.  And whatever lexemes are
chosen for the kinds of a sentence, they are accepted when they are joined by single spaces, and
read back as they were. -/
theorem Arithmetic.reads_sentences :
    (∀ source limit tokens, grammar.parse source limit false = .ok tokens →
      Sentence (tokens.map Token.kind) ∧
        ∀ (e : Engine) sheet mode text error,
          e.compile sheet tokens mode text = .error (.compile error) →
            error.defect ≠ .noBracketAfterCall) ∧
    ∀ ws : List Word, Sentence (ws.map Word.kind) → (∀ w ∈ ws, w.IsLexeme) → ∀ limit, 1 ≤ limit →
      ∃ tokens, grammar.parse (Word.joined ws) limit false = .ok tokens ∧
        tokens.map Token.kind = ws.map Word.kind ∧
        tokens.map (fun t => Text.strip t.text) = ws.map Word.text := by
  refine ⟨fun source limit tokens hparse => ?_, fun ws hsentence hws limit hlimit =>
    parse_joined hws hsentence hlimit⟩
  rw [← reading_operator] at hparse
  have hsentence := sentence_of_parse hparse
  refine ⟨hsentence, fun e sheet mode text error herror hdefect => ?_⟩
  have hfounded := Engine.compile_founded herror
  rw [Founded, hdefect] at hfounded
  obtain ⟨place, hplace, hk, hafter⟩ := hfounded
  rw [hsentence.bracket_of_call place hplace hk] at hafter
  cases hafter

/-- The lexemes of `f(1, -2)*x` with single spaces between them. -/
theorem Arithmetic.reads_sentences_call :
    ∃ tokens, grammar.parse "f ( 1 , -2 ) * x" 100 false = .ok tokens ∧
      tokens.map Token.kind = [.call, .openBracket, .number, .separator, .number, .closeBracket,
        .operator, .constant] ∧
      tokens.map (fun t => Text.strip t.text) = ["f", "(", "1", ",", "-2", ")", "*", "x"] := by
  let ws : List Word := [⟨.call, "f"⟩, ⟨.openBracket, "("⟩, ⟨.number, "1"⟩, ⟨.separator, ","⟩,
    ⟨.number, "-2"⟩, ⟨.closeBracket, ")"⟩, ⟨.operator, "*"⟩, ⟨.constant, "x"⟩]
  have hsentence : Sentence (ws.map Word.kind) := by decide
  have hws : ∀ w ∈ ws, w.IsLexeme := by decide +kernel
  exact reads_sentences.2 ws hsentence hws 100 (by decide)

end Polish
