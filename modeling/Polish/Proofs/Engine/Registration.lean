import Polish.Engine
import Polish.Proofs.Grammar.Turns
import Polish.Proofs.Pattern.Written
import Polish.Proofs.Stepwise
import Polish.Proofs.Table

/-!
# Engines after registrations

An engine can be told operators, functions and constants (`Registration`), and `Engine.registerAll`
is the engine after any number of them.  Only an operator touches the grammar, and only if its
symbol is new: then the pattern of the operator rule is written from all symbols and read again.

* `Engine.registerOperator_succeeds` — what is known of that: the written pattern is never refused,
  it is the choice between the symbols, longer ones first, and all else in the grammar stays;
* `Engine.registerAll_succeeds` — so no registration is refused, whatever the symbol is;
* `Engine.registerAll_keeps` — and what each registration keeps, all of them together keep.

The first use of the last one is `Engine.Registered.readsArithmetic`: whatever is registered, the
grammar differs from the arithmetic one in the pattern for operators only.  Hence the tokens of a
text take turns and have different handles, `Engine.ReadsArithmetic.tokenize`.
-/

set_option autoImplicit false

namespace Polish

/-! ## Steps that may fail -/

section

variable {α β ε : Type} {step : β → α → Except ε β} {b b' : β}

/-- Steps of which none fails do not fail one after another. -/
theorem foldlM_succeeds {xs : List α} (hstep : ∀ a ∈ xs, ∀ b, ∃ b', step b a = .ok b') :
    ∃ b', xs.foldlM step b = .ok b' := by
  induction xs generalizing b with
  | nil => exact ⟨b, rfl⟩
  | cons a rest ih =>
    obtain ⟨hfirst, hrest⟩ := List.forall_mem_cons.1 hstep
    obtain ⟨next, hnext⟩ := hfirst b
    rw [List.foldlM_cons, hnext]
    exact ih hrest

theorem foldlM_cons_ok {a : α} {rest : List α} (h : (a :: rest).foldlM step b = .ok b') :
    ∃ next, step b a = .ok next ∧ rest.foldlM step next = .ok b' := by
  rw [List.foldlM_cons] at h
  cases hnext : step b a with
  | error e =>
    rw [hnext] at h
    cases h
  | ok next =>
    rw [hnext] at h
    exact ⟨next, rfl, h⟩

/-- What each step keeps, all of them together keep. -/
theorem foldlM_keeps {P : β → Prop} {xs : List α}
    (hstep : ∀ a ∈ xs, ∀ b b', step b a = .ok b' → P b → P b')
    (h : xs.foldlM step b = .ok b') (hb : P b) : P b' := by
  induction xs generalizing b with
  | nil => exact Except.ok.inj h ▸ hb
  | cons a rest ih =>
    obtain ⟨hfirst, hrest⟩ := List.forall_mem_cons.1 hstep
    obtain ⟨next, hnext, hafter⟩ := foldlM_cons_ok h
    exact ih hrest hafter (hfirst b next hnext hb)

end

/-! ## Registrations -/

/-- Something that is told to an engine. -/
inductive Registration where
  | operator (symbol : String) (operator : Operator)
  | function (name : String) (function : Function)
  | constant (name : String) (value : Float)

/-- The tables after a registration. -/
def Registries.register (r : Registries) : Registration → Registries
  | .operator symbol operator => r.registerOperator symbol operator
  | .function name function => r.registerFunction name function
  | .constant name value => r.registerConstant name value

namespace Engine

open Arithmetic (reading)

/-- The engine after a registration, or what the grammar finds wrong with it. -/
def register (e : Engine) : Registration → Except GrammarDefect Engine
  | .operator symbol operator => e.registerOperator symbol operator
  | .function name function => .ok (e.registerFunction name function)
  | .constant name value => .ok (e.registerConstant name value)

/-- The engine after several registrations, one after another. -/
def registerAll (e : Engine) (registrations : List Registration) : Except GrammarDefect Engine :=
  registrations.foldlM register e

/-- The engine has come of a new one by registrations. -/
def Registered (e : Engine) : Prop := ∃ limits rs, (withLimits limits).registerAll rs = .ok e

/-- The engine reads arithmetic with some symbols. -/
def ReadsArithmetic (e : Engine) : Prop := ∃ pattern, e.grammar = reading pattern

variable {e e' : Engine} {r : Registration} {rs : List Registration}

/-- What an operator makes of a grammar that reads arithmetic: it stays as it is if it knows the
symbol, and else has a pattern for all symbols in the table. -/
def Learns (e e' : Engine) (symbol : String) : Prop :=
  ∀ pattern, e.grammar = reading pattern → e'.grammar = reading
    (if pattern.matchesAll symbol then pattern
      else Pattern.oneOfTexts (longestFirst e'.registries.operators.keys) pattern.ignoreCase)

/-- **The grammar learns every symbol that is in the table.** -/
theorem learnSymbol_succeeds {symbol : String} (h : symbol ∈ e.registries.operators.keys) :
    ∃ grammar, e.learnSymbol symbol = .ok { e with grammar } ∧
      e.Learns { e with grammar } symbol := by
  have hne : longestFirst e.registries.operators.keys ≠ [] :=
    List.ne_nil_of_mem (List.mem_mergeSort.2 h)
  rw [learnSymbol]
  cases hrule : e.grammar.rules.find? Arithmetic.operatorRule with
  | none =>
    refine ⟨e.grammar, rfl, fun pattern hpattern => ?_⟩
    rw [hpattern] at hrule
    cases hrule
  | some rule =>
    have hread : Rule.readPattern rule.name
        (Pattern.written (longestFirst e.registries.operators.keys)) rule.pattern.ignoreCase
        = .ok (Pattern.oneOfTexts (longestFirst e.registries.operators.keys)
            rule.pattern.ignoreCase) := by
      rw [Rule.readPattern, Pattern.ofText_written hne]
    dsimp only
    rw [hread]
    -- In the arithmetic grammar the rule is the one with the pattern, and it is put in its place.
    have hsymbols {pattern : Pattern} (hpattern : e.grammar = reading pattern) :
        rule = Arithmetic.symbols pattern := by
      rw [hpattern] at hrule
      exact (Option.some.inj hrule).symm
    by_cases hknown : rule.pattern.matchesAll symbol = true
    · rw [if_pos hknown]
      refine ⟨e.grammar, rfl, fun pattern hpattern => ?_⟩
      have hmatches : pattern.matchesAll symbol = true := by
        rw [hsymbols hpattern] at hknown
        exact hknown
      rw [if_pos hmatches]
      exact hpattern
    · rw [if_neg hknown]
      refine ⟨_, rfl, fun pattern hpattern => ?_⟩
      have hmatches : ¬ pattern.matchesAll symbol = true := by
        rw [hsymbols hpattern] at hknown
        exact hknown
      rw [if_neg hmatches, hpattern, hsymbols hpattern, reading, reading, Grammar.addRule,
        Grammar.addRule, Grammar.addRule]
      exact congrArg (fun rules => Grammar.mk rules _ _) (Table.insert_insert ..)

/-- **An operator is registered without fail**, whatever its symbol is. -/
theorem registerOperator_succeeds (e : Engine) (symbol : String) (operator : Operator) :
    ∃ e', e.registerOperator symbol operator = .ok e' ∧
      e'.registries = e.registries.registerOperator symbol operator ∧ e'.limits = e.limits ∧
      e.Learns e' symbol := by
  let told : Engine := { e with registries := e.registries.registerOperator symbol operator }
  have hmem : symbol ∈ told.registries.operators.keys := by
    have hfind : told.registries.operators.find? symbol = some operator :=
      (Table.find?_insert ..).trans (if_pos rfl)
    rw [Table.mem_keys_iff, hfind]
    exact Option.some_ne_none operator
  obtain ⟨grammar, hlearn, hgrammar⟩ := told.learnSymbol_succeeds hmem
  exact ⟨_, hlearn, rfl, rfl, hgrammar⟩

/-- A registration is never refused. -/
theorem register_succeeds (e : Engine) (r : Registration) : ∃ e', e.register r = .ok e' := by
  cases r with
  | operator symbol operator =>
    obtain ⟨e', he', -⟩ := e.registerOperator_succeeds symbol operator
    exact ⟨e', he'⟩
  | function | constant => exact ⟨_, rfl⟩

/-- **No sequence of registrations is refused.** -/
theorem registerAll_succeeds (e : Engine) (rs : List Registration) :
    ∃ e', e.registerAll rs = .ok e' :=
  foldlM_succeeds fun r _ e => e.register_succeeds r

theorem learns_of_registerOperator {symbol : String} {operator : Operator}
    (h : e.registerOperator symbol operator = .ok e') : e.Learns e' symbol := by
  obtain ⟨e'', he'', -, -, hlearns⟩ := e.registerOperator_succeeds symbol operator
  obtain rfl := Except.ok.inj (h.symm.trans he'')
  exact hlearns

/-- A registration changes the tables as it says and leaves the limits as they are. -/
theorem register_ok (h : e.register r = .ok e') :
    e'.registries = e.registries.register r ∧ e'.limits = e.limits := by
  cases r with
  | operator symbol operator =>
    obtain ⟨e'', he'', hregistries, hlimits, -⟩ := e.registerOperator_succeeds symbol operator
    obtain rfl := Except.ok.inj (h.symm.trans he'')
    exact ⟨hregistries, hlimits⟩
  | function | constant =>
    obtain rfl := Except.ok.inj h
    exact ⟨rfl, rfl⟩

/-- A registered symbol is in the table, behind those that were there before. -/
theorem keys_registerOperator {symbol : String} {operator : Operator}
    (h : e.registerOperator symbol operator = .ok e') :
    e'.registries.operators.keys = if symbol ∈ e.registries.operators.keys
      then e.registries.operators.keys else e.registries.operators.keys ++ [symbol] := by
  have hregistries := (register_ok (r := .operator symbol operator) h).1
  rw [hregistries]
  exact Table.keys_insert ..

theorem mem_keys_registerOperator {symbol : String} {operator : Operator}
    (h : e.registerOperator symbol operator = .ok e') :
    symbol ∈ e'.registries.operators.keys := by
  rw [keys_registerOperator h]
  split
  · assumption
  · simp

/-- **What each registration keeps, all of them together keep.** -/
theorem registerAll_keeps {P : Engine → Prop}
    (hstep : ∀ r ∈ rs, ∀ e e' : Engine, e.register r = .ok e' → P e → P e')
    (h : e.registerAll rs = .ok e') (he : P e) : P e' :=
  foldlM_keeps hstep h he

theorem registries_registerAll (h : e.registerAll rs = .ok e') :
    e'.registries = rs.foldl Registries.register e.registries := by
  induction rs generalizing e with
  | nil => exact Except.ok.inj h ▸ rfl
  | cons r rest ih =>
    obtain ⟨next, hr, hrest⟩ := foldlM_cons_ok h
    rw [ih hrest, (register_ok hr).1, List.foldl_cons]

theorem limits_registerAll (h : e.registerAll rs = .ok e') : e'.limits = e.limits :=
  registerAll_keeps (P := fun e' => e'.limits = e.limits)
    (fun _ _ _ _ hr hlimits => (register_ok hr).2.trans hlimits) h rfl

theorem Registered.register (h : e.Registered) (hr : e.register r = .ok e') : e'.Registered := by
  obtain ⟨limits, rs, hrs⟩ := h
  refine ⟨limits, rs ++ [r], ?_⟩
  rw [registerAll, List.foldlM_append, ← registerAll, hrs]
  show (e.register r).bind _ = _
  rw [hr]
  rfl

/-! ## The grammar -/

theorem ReadsArithmetic.register (h : e.ReadsArithmetic) (hr : e.register r = .ok e') :
    e'.ReadsArithmetic := by
  obtain ⟨pattern, hpattern⟩ := h
  cases r with
  | operator symbol operator => exact ⟨_, learns_of_registerOperator hr pattern hpattern⟩
  | function | constant =>
    obtain rfl := Except.ok.inj hr
    exact ⟨pattern, hpattern⟩

theorem readsArithmetic_withLimits (limits : Limits) : (withLimits limits).ReadsArithmetic :=
  ⟨_, Arithmetic.reading_operator.symm⟩

/-- **No registration changes more of the grammar than the operator symbols.** -/
theorem Registered.readsArithmetic (h : e.Registered) : e.ReadsArithmetic := by
  obtain ⟨limits, rs, hrs⟩ := h
  exact registerAll_keeps (fun r _ e e' hr he => he.register hr) hrs
    (readsArithmetic_withLimits limits)

/-! ## Tokens of a text -/

theorem tokenize_ok_iff {text : String} {tokens : List Token} :
    e.tokenize text = .ok tokens ↔ (text.length : Int) ≤ e.limits.expressionLength ∧
      e.grammar.parse text e.limits.sameIndex false = .ok tokens := by
  have hlimit : e.limits.exceeded? .expressionLength text.length none = none ↔
      (text.length : Int) ≤ e.limits.expressionLength := Limits.exceeded?_eq_none_iff
  rw [tokenize]
  cases hex : e.limits.exceeded? .expressionLength text.length none with
  | some limit =>
    rw [hex] at hlimit
    simp only [reduceCtorEq, false_iff] at hlimit
    simp [hlimit]
  | none => exact mapError_eq_ok.trans (and_iff_right (hlimit.1 hex)).symm

/-- **The tokens of a text** take turns, and no two have the same handle. -/
theorem ReadsArithmetic.tokenize (h : e.ReadsArithmetic) {text : String} {tokens : List Token}
    (htokens : e.tokenize text = .ok tokens) :
    TakesTurns tokens ∧ (tokens.map Token.handle).Nodup := by
  obtain ⟨pattern, hpattern⟩ := h
  rw [tokenize_ok_iff, hpattern] at htokens
  obtain ⟨hturns, hhandles, -⟩ := Arithmetic.parse_ok htokens.2
  exact ⟨hturns, hhandles ▸ List.nodup_range⟩

/-- A text that is not empty ends where an operator might follow. -/
theorem ReadsArithmetic.tokenize_ends (h : e.ReadsArithmetic) {text : String}
    {tokens : List Token} (hne : text ≠ "") (htokens : e.tokenize text = .ok tokens) :
    Turn.value.after tokens = some .operator := by
  obtain ⟨pattern, hpattern⟩ := h
  rw [tokenize_ok_iff, hpattern] at htokens
  exact (Arithmetic.parse_ok htokens.2).2.2 hne

end Engine

end Polish
