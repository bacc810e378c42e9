import Polish.Proofs.Engine.Symbols
import Polish.Proofs.Evaluate.Names
import Polish.Proofs.Grammar.Patterns

/-!
# What a text does not mention does not matter

The value of a text depends on the limits and on what the registries say about names that occur in
the text; everything else may differ from engine to engine.  The one thing that could spoil this is
the operator rule, since its pattern is made anew from all symbols.  But as long as the grammar is
in step with the operator table, the pattern takes the longest symbol that comes next, and a symbol
that does not occur in the text never does.

* `Engine.InStep.evaluate_eq` — two engines that agree on all names that occur in a text;
* `Engine.evaluate_register` — so a registration does not change the value of a text in which its
  name does not occur;
* `Engine.drawsNothing_of_registerAll` — texts that draw nothing, of which the first two say more.
-/

set_option autoImplicit false

namespace Polish

/-- What a registration gives a meaning to. -/
def Registration.name : Registration → String
  | .operator symbol _ => symbol
  | .function name _ => name
  | .constant name _ => name

/-- What is registered draws nothing. -/
def Registration.DrawsNothing : Registration → Prop
  | .operator _ op => op.function.DrawsNothing
  | .function _ f => f.DrawsNothing
  | .constant .. => True

theorem Registries.DrawsNothing.register {registries : Registries} {name : String}
    (h : registries.DrawsNothing name) {r : Registration} (hr : r.DrawsNothing) :
    (registries.register r).DrawsNothing name := by
  -- What a name stands for afterwards is what has been registered or what it stood for before.
  have hfind {α : Type} {P : α → Prop} {t : Table α} {other : String} {new : α} (hnew : P new)
      (hold : ∀ a, t.find? name = some a → P a) (a : α)
      (ha : (t.insert other new).find? name = some a) : P a := by
    rw [Table.find?_insert] at ha
    split at ha
    · exact Option.some.inj ha ▸ hnew
    · exact hold a ha
  cases r with
  | operator symbol operator =>
    have hnew : operator.function.DrawsNothing := hr
    exact ⟨hfind (P := fun o : Operator => o.function.DrawsNothing) hnew h.operators, h.functions⟩
  | function other function =>
    have hnew : function.DrawsNothing := hr
    exact ⟨h.operators, hfind hnew h.functions⟩
  | constant => exact ⟨h.operators, h.functions⟩

namespace Engine

open Evaluate (Draws)

variable {e e' : Engine} {text : String} {draws draws' : Draws}

/-! ## The tokens of a text -/

/-- The text of each token occurs in the text. -/
theorem ReadsArithmetic.text_infix (h : e.ReadsArithmetic) {tokens : List Token}
    (htokens : e.tokenize text = .ok tokens) {t : Token} (ht : t ∈ tokens) :
    t.text.toList <:+: text.toList := by
  obtain ⟨pattern, hpattern⟩ := h
  have hparse := (tokenize_ok_iff.1 htokens).2
  rw [hpattern] at hparse
  obtain ⟨l, handle, rfl, -⟩ := (Arithmetic.hookless_reading pattern).exists_lexeme hparse ht
  rw [Lexeme.token, String.toList_ofList, Lexeme.chars]
  exact (List.take_prefix _ _).isInfix.trans (List.drop_suffix _ _).isInfix

theorem InStep.readsArithmetic (h : e.InStep) : e.ReadsArithmetic := by
  obtain ⟨pattern, -, hgrammar, -⟩ := h
  exact ⟨pattern, hgrammar⟩

/-- Two engines that have the same symbols among those that occur in a text read it alike. -/
theorem InStep.tokenize_eq (h : e.InStep) (h' : e'.InStep) (hlimits : e.limits = e'.limits)
    (hsymbols : ∀ symbol : String, symbol.toList <:+: text.toList →
      (symbol ∈ e.registries.operators.keys ↔ symbol ∈ e'.registries.operators.keys)) :
    e.tokenize text = e'.tokenize text := by
  obtain ⟨pattern, symbols, hgrammar, hreads, hkeys⟩ := h
  obtain ⟨pattern', symbols', hgrammar', hreads', hkeys'⟩ := h'
  have hsame (symbol : String) (hoccurs : symbol.toList <:+: text.toList) :
      symbol ∈ symbols ↔ symbol ∈ symbols' := by
    rw [hkeys, hkeys', hsymbols symbol hoccurs]
  have hparse := Arithmetic.parse_reading hreads hreads' hsame
  rw [tokenize, tokenize, hlimits, hgrammar, hgrammar', hparse]

/-- **Only names that occur in a text matter for its value**, as long as the same numbers come up or
the text draws none. -/
theorem InStep.evaluate_eq (h : e.InStep) (h' : e'.InStep) (hlimits : e.limits = e'.limits)
    (hnames : ∀ name : String, name.toList <:+: text.toList →
      e.registries.AgreeOn e'.registries name)
    (hdraws : draws = draws' ∨ e'.DrawsNothing text) (mode : String) :
    e.evaluate draws text mode = e'.evaluate draws' text mode := by
  have hsymbols (symbol : String) (hoccurs : symbol.toList <:+: text.toList) :
      symbol ∈ e.registries.operators.keys ↔ symbol ∈ e'.registries.operators.keys := by
    rw [Table.mem_keys_iff, Table.mem_keys_iff, (hnames symbol hoccurs).operators]
  have htokenize := h.tokenize_eq h' hlimits hsymbols
  refine evaluate_of_alike hlimits htokenize (fun tokens htokens t ht => ⟨?_, ?_⟩) mode
  · exact hnames t.text (h.readsArithmetic.text_infix htokens ht)
  · exact hdraws.imp (fun hsame => congrFun hsame t.handle)
      fun hnothing => hnothing tokens (htokenize.symm.trans htokens) t ht

/-! ## Texts that draw nothing -/

/-- **A text that does not mention `random` draws nothing**, unless something draws that has been
registered. -/
theorem drawsNothing_of_registerAll {limits : Limits} {rs : List Registration}
    (h : (withLimits limits).registerAll rs = .ok e) (hrs : ∀ r ∈ rs, r.DrawsNothing)
    (hrandom : ¬ "random".toList <:+: text.toList) : e.DrawsNothing text := by
  intro tokens htokens t ht
  have hregistered : e.Registered := ⟨limits, rs, h⟩
  have hne : t.text ≠ "random" := fun hname =>
    hrandom (hname ▸ hregistered.readsArithmetic.text_infix htokens ht)
  refine registerAll_keeps (P := fun e => e.registries.DrawsNothing t.text)
    (fun r hr e e' hreg he => ?_) h (Registries.drawsNothing_standard hne)
  rw [(register_ok hreg).1]
  exact he.register (hrs r hr)

/-! ## Registrations -/

/-- A registration changes the meaning of its own name only. -/
theorem agreeOn_register (registries : Registries) (r : Registration) {name : String}
    (hne : r.name ≠ name) : (registries.register r).AgreeOn registries name := by
  cases r with
  | operator symbol operator => exact ⟨(Table.find?_insert ..).trans (if_neg hne), rfl, rfl⟩
  | function other function => exact ⟨rfl, (Table.find?_insert ..).trans (if_neg hne), rfl⟩
  | constant other value => exact ⟨rfl, rfl, (Table.find?_insert ..).trans (if_neg hne)⟩

/-- **A registration does not change the value of a text that does not mention it.**  For an engine
that has come of a new one by registrations, one more registration of a name that does not occur in
a text succeeds and leaves the value of the text as it is, or a failure with all that it says.  If
the text draws numbers, the same ones have to come up before and after; if it does not, the two are
the same whatever comes up. -/
theorem evaluate_register (h : e.Registered) (r : Registration)
    (hunused : ¬ r.name.toList <:+: text.toList) :
    ∃ e', e.register r = .ok e' ∧ ∀ draws draws', draws = draws' ∨ e.DrawsNothing text →
      ∀ mode, e'.evaluate draws text mode = e.evaluate draws' text mode := by
  obtain ⟨e', hr⟩ := e.register_succeeds r
  obtain ⟨hregistries, hlimits⟩ := register_ok hr
  refine ⟨e', hr, fun draws draws' hdraws mode => ?_⟩
  refine (h.inStep.register hr).evaluate_eq h.inStep hlimits (fun name hoccurs => ?_) hdraws mode
  rw [hregistries]
  refine agreeOn_register e.registries r fun hname => ?_
  exact hunused (hname ▸ hoccurs)

/-- Telling an engine that knows `=` the longer `==` does not change what it makes of `1=random()`,
when the same numbers come up, nor what it makes of `1=2`, whatever comes up. -/
theorem evaluate_register_equals :
    ∃ e e' : Engine, standard.registerAll [.operator "=" ⟨0, fun _ _ => .ok 0, false⟩] = .ok e ∧
      e.register (.operator "==" ⟨0, fun _ _ => .ok 1, false⟩) = .ok e' ∧
      (∀ draws, e'.evaluate draws "1=random()" "pn" = e.evaluate draws "1=random()" "pn") ∧
      ∀ draws draws', e'.evaluate draws "1=2" "pn" = e.evaluate draws' "1=2" "pn" := by
  let equals : Registration := .operator "=" ⟨0, fun _ _ => .ok 0, false⟩
  let r : Registration := .operator "==" ⟨0, fun _ _ => .ok 1, false⟩
  obtain ⟨e, he⟩ := standard.registerAll_succeeds [equals]
  have hregistered : e.Registered := ⟨.standard, [equals], he⟩
  have hunused : ¬ r.name.toList <:+: "1=random()".toList := by
    simp [r, Registration.name, List.infix_cons_iff]
  have hunused' : ¬ r.name.toList <:+: "1=2".toList := by
    simp [r, Registration.name, List.infix_cons_iff]
  have hnothing : e.DrawsNothing "1=2" := by
    have hnew : (withLimits .standard).registerAll [equals] = .ok e := he
    have hequals : ∀ r ∈ [equals], r.DrawsNothing := List.forall_mem_singleton.2 fun _ _ _ => rfl
    exact drawsNothing_of_registerAll hnew hequals (by simp [List.infix_cons_iff])
  obtain ⟨e', he', hsame⟩ := evaluate_register hregistered r hunused
  obtain ⟨e'', he'', hsame'⟩ := evaluate_register hregistered r hunused'
  obtain rfl := Except.ok.inj (he'.symm.trans he'')
  exact ⟨e, e', he, he', fun draws => hsame draws draws (.inl rfl) "pn",
    fun draws draws' => hsame' draws draws' (.inr hnothing) "pn"⟩

end Engine

end Polish
