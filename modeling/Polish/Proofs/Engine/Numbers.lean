import Polish.Proofs.Engine.Failures
import Polish.Proofs.Grammar.Tokens
import Polish.Proofs.Number.Literal

/-!
# Every number of a text has a value

The grammar and the evaluator have notions of a number of their own: what the number rule takes of a
text, with all that it may give back, and what `Literal.read?` makes sense of.  The first is
contained in the second, so that no number of a text is ever called invalid.

* `Arithmetic.exists_value` — the numbers of a text;
* `Evaluate.Job.Complaint.cause_ne` — what is complained about if all numbers have values;
* `Engine.numbers_have_values` — so it is for whole evaluations.

## How the proof goes

What the number rule takes is known exactly, with all the ways in which its optional parts may be
given back: it is the writing of a `Numeral`, a sign, digits, a fraction and an exponent.  And
`Literal.read?_numeral` reads every such writing.  The rest is to follow the number to the
evaluator, which is a special case of what an evaluation complains about: it calls a number invalid
only if it is a number token that it has met, and the tokens that it meets are those of the text.
-/

set_option autoImplicit false

namespace Polish

/-- **What the number rule takes is a literal.** -/
theorem Arithmetic.exists_value {pattern : Pattern} {text : String} {limit : Int}
    {keepIgnored : Bool} {tokens : List Token}
    (h : (reading pattern).parse text limit keepIgnored = .ok tokens) {t : Token} (ht : t ∈ tokens)
    (hk : t.kind = .number) : ∃ value, Literal.read? t.text = some value := by
  obtain ⟨n, hn⟩ := exists_numeral_of_token h ht hk
  rw [← String.ofList_toList (s := t.text), hn]
  exact Literal.read?_numeral n

/-- An evaluation that meets only numbers with a value calls none invalid. -/
theorem Evaluate.Job.Complaint.cause_ne {job : Job} {listed : Token → Prop} {whole : List Token}
    {x : EvalError} (h : job.Complaint listed whole (.eval x))
    (hvalue : ∀ t, listed t → t.kind = .number → ∃ value, Literal.read? t.text = some value)
    (lexeme : String) : x.cause ≠ .invalidNumber lexeme := by
  rintro hinvalid
  cases h with
  | stop stack hlisted hcause =>
    simp only at hinvalid
    subst hinvalid
    obtain ⟨hk, -, hnone⟩ := hcause
    obtain ⟨value, hsome⟩ := hvalue _ hlisted hk
    exact absurd (hnone.symm.trans hsome) nofun
  | values stack hlist hcaller hwhole hlength => cases hinvalid

namespace Engine

/-- **No number of a text is invalid.**  Every number in a text that the arithmetic grammar accepts,
with any operators, is a literal that has a value.  So whichever engine compiles the tokens, in
whatever notation and on whatever sheet, and whichever evaluates what has come of them, it does not
complain about a number; and neither does an evaluation of the text. -/
theorem numbers_have_values {pattern : Pattern} {text : String} {limit : Int} {keepIgnored : Bool}
    {tokens : List Token}
    (h : (Arithmetic.reading pattern).parse text limit keepIgnored = .ok tokens) :
    (∀ t ∈ tokens, t.kind = .number → ∃ value, Literal.read? t.text = some value) ∧
    (∀ (e e' : Engine) (draws : Evaluate.Draws) (sheet : Sheet) (mode mode' : String)
      (source source' : Option String) c x, e.compile sheet tokens mode source = .ok c →
      e'.evaluateListing draws (sheet.attachAll c.attached) c.listing mode' source'
        = .error (.eval x) → ∀ lexeme, x.cause ≠ .invalidNumber lexeme) ∧
    ∀ (e : Engine) (draws : Evaluate.Draws) (mode : String) (x : EvalError),
      e.tokenize text = .ok tokens → e.evaluate draws text mode = .error (.eval x) →
      ∀ lexeme, x.cause ≠ .invalidNumber lexeme := by
  have hvalue : ∀ t ∈ tokens, t.kind = .number → ∃ value, Literal.read? t.text = some value :=
    fun t ht => Arithmetic.exists_value h ht
  refine ⟨hvalue, fun e e' draws sheet mode mode' source source' c x hcompile hfails => ?_,
    fun e draws mode x htokens hfails => ?_⟩
  · have hclosed := closed_of_compile hcompile
    have hlisting : ∀ t ∈ c.listing, t ∈ tokens := fun t ht => (compile_subset hcompile).1 ht
    rcases evaluateListing_complaint hclosed hlisting hfails with hmode | ⟨m, -, hcomplaint⟩
    · cases hmode
    · exact hcomplaint.cause_ne hvalue
  · rcases evaluate_failure htokens hfails with hcompile | ⟨m, c, -, -, hcomplaint⟩
    · rcases compile_rejection hcompile with hmode | ⟨m, -, hrejection⟩
      · cases hmode
      · cases hrejection
    · exact hcomplaint.cause_ne hvalue

/-- The digits may be of any script: the first number of `٣.٥e-1+2` is `٣.٥e-1`. -/
theorem numbers_have_values_digits : ∃ tokens,
    Arithmetic.grammar.parse "٣.٥e-1+2" 100 false = .ok tokens ∧
      ∃ t ∈ tokens, t.text = "٣.٥e-1" ∧ ∃ value, Literal.read? t.text = some value := by
  have hparse : Arithmetic.grammar.parse "٣.٥e-1+2" 100 false
      = .ok [⟨.number, "٣.٥e-1", 0, 0⟩, ⟨.operator, "+", 6, 1⟩, ⟨.number, "2", 7, 2⟩] := by
    decide +kernel
  refine ⟨_, hparse, _, List.mem_cons_self, rfl, ?_⟩
  rw [← Arithmetic.reading_operator] at hparse
  exact (numbers_have_values hparse).1 _ List.mem_cons_self rfl

end Engine

end Polish
