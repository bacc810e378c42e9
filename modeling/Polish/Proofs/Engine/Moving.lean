import Polish.Proofs.Engine.Symbols
import Polish.Proofs.Grammar.Moving

/-!
# No engine stands still over a text

The pattern for operators is written anew whenever a symbol is registered that the grammar does not
know.  Whatever the symbols are, as long as none is empty, the pattern is one that the grammar
accepts and the operator rule takes something where it matches.

* `Engine.Moves` — what is known of the grammar and the operator table of such an engine;
* `Engine.tokenize_never_stalls` — no registration is refused, and the tokens of a text are never
  found to be impossible because of the grammar.
-/

set_option autoImplicit false

namespace Polish

/-- It is not the empty symbol that is registered. -/
def Registration.NotEmpty : Registration → Prop
  | .operator symbol _ => symbol ≠ ""
  | .function .. | .constant .. => True

namespace Engine

open Arithmetic (reading valueRule)

variable {e e' : Engine} {rs : List Registration}

/-! ## Registrations -/

/-- The grammar reads arithmetic with symbols that are not empty, and none in the table is. -/
def Moves (e : Engine) : Prop :=
  (∃ (pattern : Pattern) (symbols : List String), e.grammar = reading pattern ∧
    pattern.Reads symbols ∧ "" ∉ symbols) ∧ "" ∉ e.registries.operators.keys

theorem Moves.registerOperator (h : e.Moves) {symbol : String} (hsymbol : symbol ≠ "")
    {operator : Operator} (hr : e.registerOperator symbol operator = .ok e') : e'.Moves := by
  obtain ⟨⟨pattern, symbols, hgrammar, hreads, hsymbols⟩, htable⟩ := h
  have hgrammar' := learns_of_registerOperator hr pattern hgrammar
  have htable' : "" ∉ e'.registries.operators.keys := by
    rw [keys_registerOperator hr]
    split
    · exact htable
    · simpa using ⟨htable, hsymbol⟩
  refine ⟨?_, htable'⟩
  by_cases hknown : pattern.matchesAll symbol = true
  · rw [if_pos hknown] at hgrammar'
    exact ⟨pattern, symbols, hgrammar', hreads, hsymbols⟩
  · rw [if_neg hknown] at hgrammar'
    exact ⟨_, _, hgrammar', reads_longestFirst (mem_keys_registerOperator hr) hreads.ignoreCase,
      fun h => htable' (List.mem_mergeSort.1 h)⟩

theorem Moves.register (h : e.Moves) {r : Registration} (hne : r.NotEmpty)
    (hr : e.register r = .ok e') : e'.Moves := by
  cases r with
  | operator symbol operator => exact h.registerOperator hne hr
  | function | constant =>
    obtain rfl := Except.ok.inj hr
    exact h

/-! ## Texts -/

/-- **An engine for arithmetic never stands still and never finds its grammar at fault.**  It may
begin with any table of operators and any limits that allow one match without progress, and any
symbols may be registered, as long as none of them is empty.  Then no registration is refused, no
text has two lexemes in a row that are empty, and a text has tokens or is itself at fault. -/
theorem tokenize_never_stalls {registries : Registries} {limits : Limits}
    (htable : "" ∉ registries.operators.keys) (hlimit : 1 ≤ limits.sameIndex)
    (hrs : ∀ r ∈ rs, r.NotEmpty) :
    ∃ e : Engine, (Engine.mk registries limits Arithmetic.grammar).registerAll rs = .ok e ∧
      ∀ text : String,
        (∃ start, e.grammar.entryRules = .ok start ∧
          ∀ ls, e.grammar.Walk text.toList start ls → Lexeme.Moving ls) ∧
        ((∃ tokens, e.tokenize text = .ok tokens) ∨
          (∃ error, e.tokenize text = .error (.lex error)) ∨
          ∃ limit, e.tokenize text = .error (.limit limit)) := by
  let new : Engine := ⟨registries, limits, Arithmetic.grammar⟩
  have hnew : new.Moves := by
    have hempty : "" ∉ Arithmetic.operatorSymbols := by decide
    exact ⟨⟨_, _, Arithmetic.reading_operator.symm, Arithmetic.reads_operator, hempty⟩, htable⟩
  obtain ⟨e, he⟩ := new.registerAll_succeeds rs
  obtain ⟨⟨pattern, symbols, hgrammar, hreads, hsymbols⟩, -⟩ : e.Moves :=
    registerAll_keeps (fun r hr e e' hreg hmoves => hmoves.register (hrs r hr) hreg) he hnew
  have hlimits : e.limits = limits := limits_registerAll he
  refine ⟨e, he, fun text => ?_⟩
  have hmoving : ∀ ls, (reading pattern).Walk text.toList [valueRule] ls → Lexeme.Moving ls :=
    fun ls hls => (Arithmetic.moving_walk hreads hsymbols hls).1
  rw [hgrammar]
  refine ⟨⟨[valueRule], Arithmetic.entryRules_reading pattern, hmoving⟩, ?_⟩
  rw [tokenize, hgrammar, hlimits]
  cases limits.exceeded? .expressionLength text.length none with
  | some limit => exact .inr (.inr ⟨limit, rfl⟩)
  | none =>
    have hstanding : ∀ ls, (reading pattern).Walk text.toList [valueRule] ls →
        (Lexeme.standing ls : Int) ≤ limits.sameIndex := fun ls hls =>
      Int.le_trans (Int.ofNat_le.2 (hmoving ls hls).standing_le) hlimit
    rcases (Arithmetic.hookless_reading pattern).parse_cases (Arithmetic.check_reading pattern)
        (Arithmetic.entryRules_reading pattern) hstanding false with
      ⟨tokens, htokens⟩ | ⟨error, herror⟩
    · exact .inl ⟨tokens, by rw [htokens]; rfl⟩
    · exact .inr (.inl ⟨error, by rw [herror]; rfl⟩)

/-- So it is with symbols that mean something else in a pattern or in a text, and with the least
limit: `^` and `(` behind it, any number of any characters, and a blank. -/
theorem tokenize_never_stalls_patterns :
    ∃ e : Engine, (Engine.mk .standard { sameIndex := 1 } Arithmetic.grammar).registerAll
        [.operator "^(" ⟨5, fun _ _ => .ok 0, true⟩, .operator ".*" ⟨5, fun _ _ => .ok 0, true⟩,
          .operator " " ⟨5, fun _ _ => .ok 0, true⟩] = .ok e ∧
      ∀ text : String, (∃ tokens, e.tokenize text = .ok tokens) ∨
        (∃ error, e.tokenize text = .error (.lex error)) ∨
        ∃ limit, e.tokenize text = .error (.limit limit) := by
  let operator (symbol : String) : Registration := .operator symbol ⟨5, fun _ _ => .ok 0, true⟩
  have hrs : ∀ r ∈ [operator "^(", operator ".*", operator " "], r.NotEmpty := by
    intro r hr
    simp only [List.mem_cons, List.not_mem_nil, or_false] at hr
    rcases hr with rfl | rfl | rfl <;> exact (by decide : ("" : String) ≠ _).symm
  have htable : "" ∉ Registries.standard.operators.keys := by decide
  obtain ⟨e, he, htexts⟩ :=
    @tokenize_never_stalls _ .standard { sameIndex := 1 } htable (Int.le_refl 1) hrs
  exact ⟨e, he, fun text => (htexts text).2⟩

end Engine

end Polish
