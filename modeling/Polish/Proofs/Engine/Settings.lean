import Polish.Proofs.Config.Settings
import Polish.Proofs.Engine.Frame
import Polish.Proofs.StandIn.Validator

/-!
# Engines from settings

Settings are applied to a new engine one after another: constants, operators, disabled functions.
Two things might go wrong on the way, and then an engine would be left with half of its settings: an
operator entry might name a function that is not known, and the grammar might refuse the pattern
that is written for a new symbol.

* `Engine.ofSettings_succeeds` — for valid settings neither happens;
* `Engine.resolves_ofSettings` — every name stands for what the settings say about it, if they do,
  and otherwise for what it stands for in a new engine;
* `Engine.settings_apply` — so it is with all settings that a validator has accepted, whichever one
  it is as long as it makes the checks that are declared; and the order of the entries does not
  matter for any text, though the grammar goes through other patterns on the way and ends with
  another one.
-/

set_option autoImplicit false

namespace Polish.Engine

open Config (Settings OperatorEntry Value Validator)

variable {e e' : Engine} {settings settings' : Settings}

/-! ## Applying -/

theorem applyOperator_ok {entry : String × OperatorEntry} (h : e.applyOperator entry = .ok e') :
    ∃ operator, entry.2.operator? = some operator ∧
      e.register (.operator entry.1 operator) = .ok e' := by
  rw [applyOperator] at h
  cases hoperator : entry.2.operator? with
  | none =>
    rw [hoperator] at h
    cases h
  | some operator =>
    rw [hoperator] at h
    exact ⟨operator, rfl, mapError_eq_ok.1 h⟩

/-- The settings have been applied: constants and operators have been registered, and then the
disabled functions have been taken out. -/
theorem ofSettings_eq_ok_iff : ofSettings settings = .ok e ↔ ∃ told,
    settings.operators.entries.foldlM applyOperator
        (settings.constants.entries.foldl (fun e c => e.registerConstant c.1 c.2)
          (withLimits (settings.limits.getD Limits.standard))) = .ok told ∧
      settings.disabledFunctions.foldl disableFunction told = e := by
  rw [ofSettings]
  cases settings.operators.entries.foldlM applyOperator
      (settings.constants.entries.foldl (fun e c => e.registerConstant c.1 c.2)
        (withLimits (settings.limits.getD Limits.standard))) with
  | error fault => exact ⟨nofun, fun ⟨_, h, _⟩ => nomatch h⟩
  | ok told =>
    refine ⟨fun h => ⟨told, rfl, Except.ok.inj h⟩, fun ⟨_, htold, h⟩ => ?_⟩
    rw [← h, ← Except.ok.inj htold]
    rfl

theorem ofDocument_eq_ok {ε : Type} {validate : Validator ε} {document : Value}
    (hvalidated : validate Config.schema document = .ok settings)
    (h : ofSettings settings = .ok e) :
    ofDocument validate document = .ok e := by
  rw [ofDocument, hvalidated]
  exact mapError_eq_ok.2 h

/-- **Valid settings are applied completely.** -/
theorem ofSettings_succeeds (h : settings.Valid) : ∃ e, ofSettings settings = .ok e := by
  have hoperators : ∀ entry ∈ settings.operators.entries, ∀ e : Engine,
      ∃ e', e.applyOperator entry = .ok e' := by
    intro entry hentry e
    have hsome := h entry.2 (List.mem_map_of_mem hentry)
    obtain ⟨operator, hoperator⟩ := Option.isSome_iff_exists.1 hsome
    obtain ⟨e', he', -⟩ := e.registerOperator_succeeds entry.1 operator
    refine ⟨e', ?_⟩
    rw [applyOperator, hoperator]
    exact mapError_eq_ok.2 he'
  obtain ⟨told, htold⟩ := foldlM_succeeds hoperators
  exact ⟨_, ofSettings_eq_ok_iff.2 ⟨told, htold, rfl⟩⟩

/-! ## What names stand for -/

/-- Each name stands for what the settings say about it, if they do, and otherwise for what it
stands for in a new engine; and the grammar reads the symbols of the operators and no others. -/
structure Resolves (e : Engine) (settings : Settings) : Prop where
  operators : ∀ symbol, e.registries.operators.find? symbol
    = ((settings.operators.find? symbol).bind OperatorEntry.operator?).or
        (standard.registries.operators.find? symbol)
  entries : ∀ symbol entry, settings.operators.find? symbol = some entry →
    ∃ function, Binary.table.find? entry.function = some function ∧
      e.registries.operators.find? symbol
        = some ⟨entry.level, function, entry.rightAssociative⟩
  constants : ∀ name, e.registries.constants.find? name
    = (settings.constants.find? name).or (standard.registries.constants.find? name)
  functions : ∀ name, e.registries.functions.find? name
    = if name ∈ settings.disabledFunctions then none else standard.registries.functions.find? name
  limits : e.limits = settings.limits.getD standard.limits
  symbols : ∃ rule, e.grammar.rules.find? Arithmetic.operatorRule = some rule ∧
    ∀ symbol, rule.pattern.matchesAll symbol = true ↔ symbol ∈ e.registries.operators.keys

theorem registries_foldl_registerConstant (entries : List (String × Float)) (e : Engine) :
    (entries.foldl (fun e c => e.registerConstant c.1 c.2) e).registries
      = { e.registries with constants := e.registries.constants.fill some entries } := by
  induction entries generalizing e with
  | nil => rfl
  | cons entry rest ih => exact ih _

theorem registries_foldlM_applyOperator {entries : List (String × OperatorEntry)}
    (h : entries.foldlM applyOperator e = .ok e') :
    e'.registries = { e.registries with
      operators := e.registries.operators.fill OperatorEntry.operator? entries } := by
  induction entries generalizing e with
  | nil => exact Except.ok.inj h ▸ rfl
  | cons entry rest ih =>
    obtain ⟨next, hnext, hrest⟩ := foldlM_cons_ok h
    obtain ⟨operator, hoperator, hregister⟩ := applyOperator_ok hnext
    rw [ih hrest, (register_ok hregister).1, Table.fill, Table.fill, List.foldl_cons, hoperator]
    rfl

theorem registries_foldl_disableFunction (names : List String) (e : Engine) :
    (names.foldl disableFunction e).registries
      = { e.registries with functions := names.foldl Table.erase e.registries.functions } := by
  induction names generalizing e with
  | nil => rfl
  | cons name rest ih => exact ih _

/-- The registries after all settings have been applied. -/
theorem registries_ofSettings (h : ofSettings settings = .ok e) :
    e.registries =
      ⟨Registries.standardOperators.fill OperatorEntry.operator? settings.operators.entries,
        settings.disabledFunctions.foldl Table.erase Standard.table,
        Registries.standardConstants.fill some settings.constants.entries⟩ := by
  obtain ⟨told, htold, rfl⟩ := ofSettings_eq_ok_iff.1 h
  rw [registries_foldl_disableFunction, registries_foldlM_applyOperator htold,
    registries_foldl_registerConstant]
  rfl

/-- An engine to which settings have been applied is in step with its operators and has the limits
that it was made with. -/
theorem inStep_ofSettings (h : ofSettings settings = .ok e) :
    e.InStep ∧ e.limits = settings.limits.getD standard.limits := by
  obtain ⟨told, htold, rfl⟩ := ofSettings_eq_ok_iff.1 h
  let Steps (e : Engine) : Prop := e.InStep ∧ e.limits = settings.limits.getD standard.limits
  have hnew : Steps (withLimits (settings.limits.getD Limits.standard)) :=
    ⟨inStep_withLimits _, rfl⟩
  have hconstants : Steps (settings.constants.entries.foldl
      (fun e c => e.registerConstant c.1 c.2) _) :=
    List.foldlRecOn _ _ hnew fun e he entry _ => he
  have htold' : Steps told := foldlM_keeps (fun entry _ e e' happly he => by
    obtain ⟨operator, -, hregister⟩ := applyOperator_ok happly
    exact ⟨he.1.register hregister, (register_ok hregister).2.trans he.2⟩) htold hconstants
  exact List.foldlRecOn (motive := Steps) _ _ htold' fun e he name _ => he

/-- **Settings mean what they say.** -/
theorem resolves_ofSettings (hvalid : settings.Valid) (h : ofSettings settings = .ok e) :
    e.Resolves settings := by
  have hoperators (symbol : String) : e.registries.operators.find? symbol
      = ((settings.operators.find? symbol).bind OperatorEntry.operator?).or
          (standard.registries.operators.find? symbol) := by
    rw [registries_ofSettings h]
    exact Table.find?_fill _ settings.operators.distinct _ symbol
  obtain ⟨⟨pattern, symbols, hgrammar, hreads, hkeys⟩, hlimits⟩ := inStep_ofSettings h
  refine ⟨hoperators, fun symbol entry hentry => ?_, fun name => ?_, fun name => ?_, hlimits,
    Arithmetic.symbols pattern, by rw [hgrammar]; rfl, fun symbol => ?_⟩
  · have hsome := hvalid entry (List.mem_map.2 ⟨_, Table.find?_eq_some_iff.1 hentry, rfl⟩)
    rw [OperatorEntry.operator?, Option.isSome_map] at hsome
    obtain ⟨function, hfunction⟩ := Option.isSome_iff_exists.1 hsome
    refine ⟨function, hfunction, ?_⟩
    rw [hoperators, hentry, Option.bind_some, OperatorEntry.operator?, hfunction]
    rfl
  · rw [registries_ofSettings h]
    refine (Table.find?_fill some settings.constants.distinct _ name).trans ?_
    rw [Option.bind_fun_some]
    rfl
  · rw [registries_ofSettings h]
    exact Table.find?_foldl_erase ..
  · exact (Pattern.matchesAll_iff hreads symbol).trans (hkeys symbol)

/-- An operator entry stands for an operator that draws nothing, since the binary functions do not.
-/
theorem drawsNothing_operator? {entry : OperatorEntry} {operator : Operator}
    (h : entry.operator? = some operator) : operator.function.DrawsNothing := by
  obtain ⟨function, hfunction, rfl⟩ := Option.map_eq_some_iff.1 h
  exact Binary.drawsNothing hfunction

/-- **With settings applied, still only the name `random` draws.** -/
theorem drawsNothing_of_ofSettings (h : ofSettings settings = .ok e) {text : String}
    (hrandom : ¬ "random".toList <:+: text.toList) : e.DrawsNothing text := by
  intro tokens htokens t ht
  have hne : t.text ≠ "random" := fun hname =>
    hrandom (hname ▸ (inStep_ofSettings h).1.readsArithmetic.text_infix htokens ht)
  obtain ⟨told, htold, rfl⟩ := ofSettings_eq_ok_iff.1 h
  let Calm (e : Engine) : Prop := e.registries.DrawsNothing t.text
  have hnew : Calm (withLimits (settings.limits.getD Limits.standard)) :=
    Registries.drawsNothing_standard hne
  have hconstants : Calm (settings.constants.entries.foldl
      (fun e c => e.registerConstant c.1 c.2) _) :=
    List.foldlRecOn _ _ hnew fun e he c _ =>
      he.register (r := .constant c.1 c.2) trivial
  have htold' : Calm told := foldlM_keeps (fun entry _ e e' happly he => by
    obtain ⟨operator, hoperator, hregister⟩ := applyOperator_ok happly
    have hnothing : (Registration.operator entry.1 operator).DrawsNothing :=
      drawsNothing_operator? hoperator
    show e'.registries.DrawsNothing t.text
    rw [(register_ok hregister).1]
    exact Registries.DrawsNothing.register he hnothing) htold hconstants
  refine List.foldlRecOn (motive := Calm) _ _ htold' fun e he name _ => ⟨he.operators, ?_⟩
  intro function hfunction
  rw [disableFunction, Table.find?_erase] at hfunction
  split at hfunction
  · cases hfunction
  · exact he.functions function hfunction

/-! ## The order of entries -/

/-- Settings in another order mean the same. -/
theorem agreeOn_of_reorders (hreorders : settings.Reorders settings')
    (h : ofSettings settings = .ok e) (h' : ofSettings settings' = .ok e') (name : String) :
    e'.registries.AgreeOn e.registries name := by
  rw [registries_ofSettings h, registries_ofSettings h']
  refine ⟨(Table.find?_fill_perm _ hreorders.operators _ name).symm, ?_,
    (Table.find?_fill_perm _ hreorders.constants _ name).symm⟩
  rw [Table.find?_foldl_erase, Table.find?_foldl_erase]
  simp only [hreorders.disabledFunctions.mem_iff]

/-- **Settings are applied completely, mean what they say, and their order does not matter.**  From
every document that is accepted an engine is made, whatever validates it, as long as that makes the
checks that are declared.  Every name then stands for what the settings say.  From the same
constants, operators and disabled functions in another order an engine is made for which the same
holds, and the two find the same value for every text, or fail in the same way.  If the text draws
numbers, the same ones have to come up for both; if it does not, that is so whatever comes up. -/
theorem settings_apply {ε : Type} {validate : Validator ε} (hvalidate : validate.RunsChecks)
    {document : Value} (h : validate Config.schema document = .ok settings) :
    ∃ e, ofSettings settings = .ok e ∧ ofDocument validate document = .ok e ∧
      e.Resolves settings ∧
      ∀ settings', settings.Reorders settings' →
        ∃ e', ofSettings settings' = .ok e' ∧ e'.Resolves settings' ∧
          ∀ text draws draws', draws = draws' ∨ e.DrawsNothing text →
            ∀ mode, e'.evaluate draws text mode = e.evaluate draws' text mode := by
  have hvalid := Settings.valid_of_validated hvalidate h
  obtain ⟨e, he⟩ := ofSettings_succeeds hvalid
  refine ⟨e, he, ofDocument_eq_ok h he, resolves_ofSettings hvalid he, ?_⟩
  intro settings' hreorders
  have hvalid' := hvalid.of_reorders hreorders
  obtain ⟨e', he'⟩ := ofSettings_succeeds hvalid'
  refine ⟨e', he', resolves_ofSettings hvalid' he', fun text draws draws' hdraws mode => ?_⟩
  obtain ⟨hstep, hlimits⟩ := inStep_ofSettings he
  obtain ⟨hstep', hlimits'⟩ := inStep_ofSettings he'
  refine hstep'.evaluate_eq hstep ?_ (fun name _ => ?_) hdraws mode
  · rw [hlimits, hlimits', hreorders.limits]
  · exact agreeOn_of_reorders hreorders he he' name

/-- A document that configures the operators `**` and `=`, in the one order or the other. -/
def powersAndEquals (reversed : Bool) : Value :=
  let entry (name : String) (level : Int) (function : String) : Value × Value :=
    (.text name, .map [(.text "level", .int level), (.text "function", .text function)])
  let entries := [entry "**" 4 "pow", entry "=" 0 "sub"]
  .map [(.text "operators", .map (if reversed then entries.reverse else entries))]

/-- Whether `**` or `=` is configured first makes no difference to `2**3=8`, whatever comes up. -/
theorem settings_apply_powers :
    ∃ e e', ofDocument Lenient.validate (powersAndEquals false) = .ok e ∧
      ofDocument Lenient.validate (powersAndEquals true) = .ok e' ∧
      ∀ draws draws', e'.evaluate draws "2**3=8" "rpn" = e.evaluate draws' "2**3=8" "rpn" := by
  let settings (entries : List (String × OperatorEntry)) : Settings :=
    ⟨.empty, Table.ofList entries, [], none⟩
  let power : String × OperatorEntry := ("**", ⟨4, "pow", false⟩)
  let equals : String × OperatorEntry := ("=", ⟨0, "sub", false⟩)
  have h : Lenient.validate Config.schema (powersAndEquals false)
      = .ok (settings [power, equals]) := rfl
  have h' : Lenient.validate Config.schema (powersAndEquals true)
      = .ok (settings [equals, power]) := rfl
  have hreorders : (settings [power, equals]).Reorders (settings [equals, power]) :=
    ⟨.refl _, .swap _ _ _, .refl _, rfl⟩
  obtain ⟨e, he, hdocument, -, horder⟩ := settings_apply Lenient.runsChecks_validate h
  obtain ⟨e', he', -, hsame⟩ := horder _ hreorders
  have hnothing : e.DrawsNothing "2**3=8" :=
    drawsNothing_of_ofSettings he (by simp [List.infix_cons_iff])
  exact ⟨e, e', hdocument, ofDocument_eq_ok h' he',
    fun draws draws' => hsame "2**3=8" draws draws' (.inr hnothing) "rpn"⟩

end Polish.Engine
