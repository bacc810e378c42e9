import Polish.Proofs.Engine.Symbols
import Polish.Proofs.Grammar.Echo

/-!
# Blanks between tokens are of no importance

What `Arithmetic.parse_spaced` says of arithmetic, said of an engine with any registrations.  The
symbols of its operators must not contain blanks: a symbol with a blank in it would be torn apart,
or made, by blanks that are put in.

## How the proof goes

An engine that has come of a new one by registrations is in step with its operator table
(`Registered.inStep`), so its operator rule is a choice between the registered symbols.  If none of
them has a blank in it, the rule never takes one (`Regex.Solid`), and this is all that the theorem
about arithmetic asks of the operator rule.
-/

set_option autoImplicit false

namespace Polish.Engine

open Text (isBlank)

variable {e : Engine}

/-- **Blanks between tokens are of no importance.**  Whatever has been registered, as long as no
operator symbol contains a blank: if an engine's grammar reads tokens from a text, it also reads
tokens from the text with any blanks put in before, between and behind them.  These tokens have the
same kinds and, without the blanks at their ends, the same texts. -/
theorem reads_spaced (h : e.Registered)
    (hsymbols : ∀ symbol ∈ e.registries.operators.keys, ∀ c ∈ symbol.toList, isBlank c = false)
    {text : String} {limit : Int} {tokens : List Token}
    (htokens : e.grammar.parse text limit false = .ok tokens) (hne : tokens ≠ [])
    (s : Spacing) (hwhole : ∀ t ∈ tokens, s.Whole t.pos.toNat t.text.toList) :
    ∃ tokens', e.grammar.parse (s.apply text) limit false = .ok tokens' ∧
      tokens'.map Token.kind = tokens.map Token.kind ∧
      (tokens'.map fun t => Text.strip t.text) = tokens.map fun t => Text.strip t.text := by
  obtain ⟨pattern, symbols, hgrammar, hreads, hkeys⟩ := h.inStep
  have hsolid : Regex.Solid pattern.ignoreCase pattern.regex := by
    rw [hreads.ignoreCase]
    exact hreads.chooses.solid fun symbol hsymbol => hsymbols symbol ((hkeys symbol).1 hsymbol)
  rw [hgrammar] at htokens ⊢
  obtain ⟨tokens', hparse, hsame⟩ := Arithmetic.parse_spaced hsolid htokens hne hwhole
  have hparts := congrArg List.unzip hsame
  simp only [List.unzip_eq_map, List.map_map] at hparts
  exact ⟨tokens', hparse, Prod.mk.inj hparts⟩

/-- In `f(12)<<x` there is room for a blank before and behind every character but inside `12` and
inside `<<`. -/
theorem reads_spaced_call :
    standard.Registered ∧ ∃ (s : Spacing) (tokens : List Token),
      standard.grammar.parse "f(12)<<x" 100 false = .ok tokens ∧
      s.apply "f(12)<<x" = " f ( 12 ) << x " ∧
      ∃ tokens', standard.grammar.parse " f ( 12 ) << x " 100 false = .ok tokens' ∧
        tokens'.map Token.kind
          = [.call, .openBracket, .number, .closeBracket, .operator, .constant] ∧
        tokens'.map (fun t => Text.strip t.text) = ["f", "(", "12", ")", "<<", "x"] := by
  let s : Spacing :=
    ⟨fun i => if i = 3 ∨ i = 6 then [] else [' '], fun i b hb => by
      split at hb
      · cases hb
      · exact List.mem_singleton.1 hb ▸ by decide⟩
  let tokens : List Token := [⟨.call, "f", 0, 0⟩, ⟨.openBracket, "(", 1, 1⟩, ⟨.number, "12", 2, 2⟩,
    ⟨.closeBracket, ")", 4, 3⟩, ⟨.operator, "<<", 5, 4⟩, ⟨.constant, "x", 7, 5⟩]
  have hregistered : standard.Registered := ⟨.standard, [], rfl⟩
  have hall : standard.registries.operators.keys.all
      (fun symbol => symbol.toList.all fun c => !isBlank c) = true := by
    decide +kernel
  have hsymbols : ∀ symbol ∈ standard.registries.operators.keys, ∀ c ∈ symbol.toList,
      isBlank c = false := by
    simpa using hall
  have htokens : standard.grammar.parse "f(12)<<x" 100 false = .ok tokens :=
    toOption_eq_some.1 (by decide +kernel)
  have hends : ∀ t ∈ tokens, t.pos.toNat + t.text.toList.length ≤ 8 := by decide
  have hinside : ∀ t ∈ tokens, ∀ k < 8, t.pos.toNat < k → k < t.pos.toNat + t.text.toList.length →
      s.gap k = [] := by
    decide
  have hwhole : ∀ t ∈ tokens, s.Whole t.pos.toNat t.text.toList := fun t ht =>
    Spacing.whole_of_gap fun k hk hk' => hinside t ht k (Nat.lt_of_lt_of_le hk' (hends t ht)) hk hk'
  have happly : s.apply "f(12)<<x" = " f ( 12 ) << x " := by decide
  obtain ⟨tokens', hparse, hkinds, htexts⟩ :=
    reads_spaced hregistered hsymbols htokens (by decide) s hwhole
  rw [happly] at hparse
  exact ⟨hregistered, s, tokens, htokens, happly, tokens', hparse, hkinds, htexts.trans (by decide)⟩

end Polish.Engine
