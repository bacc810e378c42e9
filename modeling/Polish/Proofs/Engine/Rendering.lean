import Polish.Proofs.Compile.Rendering
import Polish.Proofs.Engine.Symbols

/-!
# The printed listing says everything

`Engine.render_injective` — if a new engine prints two compiled texts in the same way, then their
listings are alike: token by token they have the same kinds and texts, and so have the arguments of
calls, all the way down.

## How the proof goes

`Sheet.alike_of_render` takes the printed text apart, for tokens whose texts are words of their
kinds and for sheets that go down no further than is printed.  A compilation leaves such sheets
(`Engine.whole_compile`).  That the texts are words of their kinds is a property of the grammar, and
it is here that the engine has to be a new one: numbers, names and operator symbols are told apart
by their characters, and a symbol that somebody registers may have any.
-/

set_option autoImplicit false

namespace Polish.Engine

/-- The values, calls and operators of a text are words of their kinds. -/
theorem spelled_of_tokenize {text : String} {tokens : List Token}
    (h : standard.tokenize text = .ok tokens) {t : Token} (ht : t ∈ tokens)
    (hlisted : t.kind.isListed = true) : t.Spelled := by
  have hparse : (Arithmetic.reading ⟨Arithmetic.operator, false⟩).parse text
      standard.limits.sameIndex false = .ok tokens := by
    rw [Arithmetic.reading_operator]
    exact (tokenize_ok_iff.1 h).2
  cases hk : t.kind with
  | number =>
    obtain ⟨n, hn⟩ := Arithmetic.exists_numeral_of_token hparse ht hk
    exact .number hk n hn
  | constant =>
    obtain ⟨n, hn⟩ := Arithmetic.exists_name_of_token hparse ht (.inl hk)
    exact .name (.inl hk) n hn
  | call =>
    obtain ⟨n, hn⟩ := Arithmetic.exists_name_of_token hparse ht (.inr hk)
    exact .name (.inr hk) n hn
  | operator =>
    have hkey := ((inStep_withLimits .standard).longestPrefix h ht hk).mem
    have hsymbols : ∀ symbol ∈ standard.registries.operators.keys,
        symbol ∈ Arithmetic.operatorSymbols := by decide
    exact .symbol hk (hsymbols _ hkey)
  | openBracket | closeBracket | separator | other =>
    rw [hk] at hlisted
    cases hlisted

/-- **The printed listing is unambiguous.**  If two texts are read and compiled by a new engine, in
whatever notations, and the listings are printed in the same way, then the listings are alike: they
are equally long, and token by token they have the same kind and the same text without blanks around
it, and the arguments of calls are alike in the same sense. -/
theorem render_injective {text text' : String} {tokens tokens' : List Token} {m m' : Mode}
    {source source' : Option String} {c c' : Compile.Compiled}
    (htokens : standard.tokenize text = .ok tokens)
    (htokens' : standard.tokenize text' = .ok tokens')
    (hc : standard.compile .empty tokens m.name source = .ok c)
    (hc' : standard.compile .empty tokens' m'.name source' = .ok c')
    (h : Item.render ((Sheet.empty.attachAll c.attached).expand c.listing)
      = Item.render ((Sheet.empty.attachAll c'.attached).expand c'.listing)) :
    List.Forall₂ ((Sheet.empty.attachAll c.attached).Alike (Sheet.empty.attachAll c'.attached))
      c.listing c'.listing := by
  have hreads : standard.ReadsArithmetic := readsArithmetic_withLimits .standard
  have hwhole := whole_compile (fun _ => spelled_of_tokenize htokens)
    (Token.nodup_calls (hreads.tokenize htokens).2) hc
  have hwhole' := whole_compile (fun _ => spelled_of_tokenize htokens')
    (Token.nodup_calls (hreads.tokenize htokens').2) hc'
  exact Sheet.alike_of_render hwhole hwhole' h

/-- Blanks and brackets make no difference to `max(2,3)*4`. -/
theorem render_injective_product : ∃ tokens tokens' c c',
    standard.tokenize "max(2,3)*4" = .ok tokens ∧
      standard.tokenize "(max( 2,3 ) * (4))" = .ok tokens' ∧
      standard.compile .empty tokens "rpn" none = .ok c ∧
      standard.compile .empty tokens' "rpn" none = .ok c' ∧
      List.Forall₂ ((Sheet.empty.attachAll c.attached).Alike (Sheet.empty.attachAll c'.attached))
        c.listing c'.listing := by
  have htokens : standard.tokenize "max(2,3)*4" = .ok [⟨.call, "max", 0, 0⟩,
      ⟨.openBracket, "(", 3, 1⟩, ⟨.number, "2", 4, 2⟩, ⟨.separator, ",", 5, 3⟩,
      ⟨.number, "3", 6, 4⟩, ⟨.closeBracket, ")", 7, 5⟩, ⟨.operator, "*", 8, 6⟩,
      ⟨.number, "4", 9, 7⟩] := toOption_eq_some.1 (by decide +kernel)
  have htokens' : standard.tokenize "(max( 2,3 ) * (4))" = .ok [⟨.openBracket, "(", 0, 0⟩,
      ⟨.call, "max", 1, 1⟩, ⟨.openBracket, "( ", 4, 2⟩, ⟨.number, "2", 6, 3⟩,
      ⟨.separator, ",", 7, 4⟩, ⟨.number, "3", 8, 5⟩, ⟨.closeBracket, ") ", 10, 6⟩,
      ⟨.operator, "*", 12, 7⟩, ⟨.openBracket, "(", 14, 8⟩, ⟨.number, "4", 15, 9⟩,
      ⟨.closeBracket, ")", 16, 10⟩, ⟨.closeBracket, ")", 17, 11⟩] :=
    toOption_eq_some.1 (by decide +kernel)
  refine ⟨_, _, _, _, htokens, htokens', rfl, rfl, ?_⟩
  exact @render_injective _ _ _ _ .rpn .rpn _ _ _ _ htokens htokens' rfl rfl (by decide +kernel)

end Polish.Engine
