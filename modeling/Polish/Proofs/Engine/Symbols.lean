import Polish.Proofs.Compile.Blame
import Polish.Proofs.Engine.Registration
import Polish.Proofs.Grammar.Lexemes
import Polish.Proofs.Grammar.Lossless

/-!
# The grammar and the operator table stay in step

An engine reads its operators with a pattern of its grammar and looks them up in a table.  A
registration changes the table always and the pattern only if the symbol is new to it.  All the same
the two are `Engine.InStep` after any registrations: the pattern is a choice between the symbols of
the table, and no symbol comes before a longer one.

`Engine.operators_in_step` says what follows: the operator rule takes the longest registered symbol
that there is, so every operator token of a text is registered and no compilation of these tokens
fails for want of an operator.
-/

set_option autoImplicit false

namespace Polish

namespace Arithmetic

/-- An operator token that is kept is made by the operator rule. -/
theorem rule_of_operator {pattern : Pattern} {rule : Rule}
    (hrule : rule ∈ (reading pattern).rules.values) (hkind : rule.kind = .operator)
    (hkept : rule.ignore = false) : rule = symbols pattern := by
  rw [values_reading] at hrule
  simp only [List.mem_cons, List.not_mem_nil, or_false] at hrule
  rcases hrule with rfl | rfl | rfl | rfl | rfl | rfl | rfl | rfl | rfl
  -- The state after a value has the name of the kind, but its tokens are ignored.
  case inr.inr.inr.inr.inr.inr.inl => rfl
  case inr.inr.inr.inr.inr.inr.inr.inr => cases hkept
  all_goals exact absurd hkind (by decide)

end Arithmetic

namespace Engine

open Arithmetic (reading)

variable {e e' : Engine}

/-! ## What registrations preserve -/

/-- The grammar reads arithmetic with the symbols of the operator table, longer ones first. -/
def InStep (e : Engine) : Prop :=
  ∃ (pattern : Pattern) (symbols : List String), e.grammar = reading pattern ∧
    pattern.Reads symbols ∧ ∀ symbol, symbol ∈ symbols ↔ symbol ∈ e.registries.operators.keys

theorem inStep_withLimits (limits : Limits) : (withLimits limits).InStep := by
  refine ⟨_, _, Arithmetic.reading_operator.symm, Arithmetic.reads_operator, fun symbol => ?_⟩
  have hkeys : (withLimits limits).registries.operators.keys
      = ["&", "|", "<<", ">>", "+", "-", "*", "×", "/", "÷", "%", "^"] := rfl
  have hperm : Arithmetic.operatorSymbols.Perm
      ["&", "|", "<<", ">>", "+", "-", "*", "×", "/", "÷", "%", "^"] := by decide
  rw [hkeys]
  exact hperm.mem_iff

theorem pairwise_longestFirst (symbols : List String) :
    (longestFirst symbols).Pairwise fun a b => b.length ≤ a.length := by
  let longer (a b : String) : Bool := b.length ≤ a.length
  have hsorted : (symbols.mergeSort longer).Pairwise fun a b => longer a b = true :=
    List.pairwise_mergeSort
      (fun a b c hab hbc => by simp only [longer, decide_eq_true_eq] at *; omega)
      (fun a b => by simp only [longer, Bool.or_eq_true, decide_eq_true_eq]; omega) symbols
  exact hsorted.imp of_decide_eq_true

/-- The pattern that an operator makes the grammar learn reads the symbols in the table. -/
theorem reads_longestFirst {symbol : String} (hmem : symbol ∈ e.registries.operators.keys)
    {ignoreCase : Bool} (hcase : ignoreCase = false) :
    (Pattern.oneOfTexts (longestFirst e.registries.operators.keys) ignoreCase).Reads
      (longestFirst e.registries.operators.keys) :=
  ⟨hcase, Regex.chooses_choice (List.ne_nil_of_mem (List.mem_mergeSort.2 hmem)),
    pairwise_longestFirst _⟩

/-- **A registration keeps the grammar in step with the table.** -/
theorem InStep.registerOperator (h : e.InStep) {symbol : String} {operator : Operator}
    (hr : e.registerOperator symbol operator = .ok e') : e'.InStep := by
  obtain ⟨pattern, symbols, hgrammar, hreads, hkeys⟩ := h
  have hgrammar' := learns_of_registerOperator hr pattern hgrammar
  have hkeys' : e'.registries.operators.keys = _ := keys_registerOperator hr
  by_cases hknown : pattern.matchesAll symbol = true
  · have hmem : symbol ∈ e.registries.operators.keys :=
      (hkeys symbol).1 ((Pattern.matchesAll_iff hreads symbol).1 hknown)
    rw [if_pos hknown] at hgrammar'
    rw [if_pos hmem] at hkeys'
    refine ⟨pattern, symbols, hgrammar', hreads, fun other => ?_⟩
    rw [hkeys']
    exact hkeys other
  · rw [if_neg hknown] at hgrammar'
    exact ⟨_, _, hgrammar', reads_longestFirst (mem_keys_registerOperator hr) hreads.ignoreCase,
      fun other => List.mem_mergeSort⟩

theorem InStep.register {r : Registration} (h : e.InStep) (hr : e.register r = .ok e') :
    e'.InStep := by
  cases r with
  | operator symbol operator => exact h.registerOperator hr
  | function | constant =>
    obtain rfl := Except.ok.inj hr
    exact h

theorem Registered.inStep (h : e.Registered) : e.InStep := by
  obtain ⟨limits, rs, hrs⟩ := h
  exact registerAll_keeps (fun r _ e e' hr he => he.register hr) hrs (inStep_withLimits limits)

/-! ## What follows for texts -/

/-- Each operator token of a text is the longest registered symbol at its place. -/
theorem InStep.longestPrefix (h : e.InStep) {text : String} {tokens : List Token}
    (htokens : e.tokenize text = .ok tokens) {t : Token} (ht : t ∈ tokens)
    (hk : t.kind = .operator) :
    LongestPrefix e.registries.operators.keys (text.toList.drop t.pos.toNat) t.text := by
  obtain ⟨pattern, symbols, hgrammar, hreads, hkeys⟩ := h
  have hparse := (tokenize_ok_iff.1 htokens).2
  rw [hgrammar] at hparse
  obtain ⟨l, handle, rfl, hrule, hkeeps, hwidth, -⟩ :=
    (Arithmetic.hookless_reading pattern).exists_lexeme hparse ht
  have hsymbols : l.rule = Arithmetic.symbols pattern :=
    Arithmetic.rule_of_operator hrule hk (by simpa [Scan.keeps] using hkeeps)
  rw [hsymbols] at hwidth
  obtain ⟨symbol, hlongest, hlength⟩ := (Pattern.width?_symbols hreads _).1 l.width hwidth
  have htext : (l.token text.toList handle).text = symbol := by
    rw [Lexeme.token, Lexeme.chars, ← hlength, ← String.length_toList,
      ← List.prefix_iff_eq_take.1 hlongest.isPrefix, String.ofList_toList]
  rw [htext]
  exact hlongest.congr hkeys

/-- **The grammar and the operator table stay in step.**  After any registrations, the operator rule
takes the longest registered symbol that the rest of a text begins with, and does not match if there
is none.  So the operator tokens of a text are registered symbols, and a compilation of these tokens
does not fail for want of an operator. -/
theorem operators_in_step (h : e.Registered) :
    (∃ rule, e.grammar.rules.find? Arithmetic.operatorRule = some rule ∧ ∀ source offset,
      (∀ width, rule.pattern.width? source offset = some width →
        ∃ symbol, LongestPrefix e.registries.operators.keys (source.drop offset) symbol ∧
          symbol.length = width) ∧
      (rule.pattern.width? source offset = none →
        ∀ symbol ∈ e.registries.operators.keys, ¬ symbol.toList <+: source.drop offset)) ∧
    ∀ text tokens, e.tokenize text = .ok tokens →
      (∀ t ∈ tokens, t.kind = .operator →
        LongestPrefix e.registries.operators.keys (text.toList.drop t.pos.toNat) t.text) ∧
      ∀ sheet mode source error,
        e.compile sheet tokens mode source = .error (.compile error) →
        ∀ symbol, error.defect ≠ .unknownOperator symbol := by
  have hstep := h.inStep
  refine ⟨?_, fun text tokens htokens => ⟨fun t ht hk => hstep.longestPrefix htokens ht hk, ?_⟩⟩
  · obtain ⟨pattern, symbols, hgrammar, hreads, hkeys⟩ := hstep
    refine ⟨Arithmetic.symbols pattern, by rw [hgrammar]; rfl, fun source offset => ?_⟩
    obtain ⟨hsome, hnone⟩ := Pattern.width?_symbols hreads (source.drop offset)
    refine ⟨fun width hwidth => ?_, fun hwidth symbol hsymbol => ?_⟩
    · obtain ⟨symbol, hlongest, hlength⟩ := hsome width hwidth
      exact ⟨symbol, hlongest.congr hkeys, hlength⟩
    · exact hnone hwidth symbol ((hkeys symbol).2 hsymbol)
  · intro sheet mode source error herror symbol hdefect
    have hfounded := compile_founded herror
    rw [Compile.Founded, hdefect] at hfounded
    obtain ⟨hunknown, t, ht, hk, rfl⟩ := hfounded
    exact Table.find?_eq_none_iff.1 hunknown (hstep.longestPrefix htokens ht hk).mem

/-- The registrations that tell an engine `=` and then the longer `==`. -/
def equalsSigns : List Registration :=
  [.operator "=" ⟨0, fun _ _ => .ok 0, false⟩, .operator "==" ⟨0, fun _ _ => .ok 1, false⟩]

/-- With `=` and `==` registered, the operator rule takes both characters of `==2`. -/
theorem operators_in_step_equals :
    ∃ e : Engine, standard.registerAll equalsSigns = .ok e ∧ e.Registered ∧
      ∃ rule, e.grammar.rules.find? Arithmetic.operatorRule = some rule ∧
        rule.pattern.width? ['=', '=', '2'] 0 = some 2 := by
  obtain ⟨e, he⟩ := standard.registerAll_succeeds equalsSigns
  have hregistered : e.Registered := ⟨.standard, _, he⟩
  have hkeys : e.registries.operators.keys = ["&", "|", "<<", ">>", "+", "-", "*", "×", "/", "÷",
      "%", "^", "=", "=="] := by
    rw [registries_registerAll he]
    rfl
  obtain ⟨⟨rule, hrule, hwidths⟩, -⟩ := operators_in_step hregistered
  obtain ⟨hsome, hnone⟩ := hwidths ['=', '=', '2'] 0
  have htwo : "==" ∈ e.registries.operators.keys ∧ "==".toList <+: ['=', '=', '2'] := by
    rw [hkeys]
    decide
  refine ⟨e, he, hregistered, rule, hrule, ?_⟩
  cases hwidth : rule.pattern.width? ['=', '=', '2'] 0 with
  | none => exact absurd htwo.2 (hnone hwidth _ htwo.1)
  | some width =>
    obtain ⟨symbol, hlongest, rfl⟩ := hsome width hwidth
    have honly : ∀ symbol ∈ e.registries.operators.keys,
        symbol.toList <+: ['=', '=', '2'] → symbol.length ≤ 2 := by
      rw [hkeys]
      decide
    have hle := honly symbol hlongest.mem hlongest.isPrefix
    have hge := hlongest.longest _ htwo.1 htwo.2
    exact congrArg some (Nat.le_antisymm hle hge)

end Engine

end Polish
