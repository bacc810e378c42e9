import Polish.Compile.Scan
import Polish.Config.Settings
import Polish.Evaluate
import Polish.Grammar.Arithmetic
import Polish.Pattern.Writer

/-!
# Engines

An engine is a grammar with registries and limits.  It takes a text through three stages — tokens,
listing, value — and each stage can be run by itself.  `Engine.evaluate` is all of them in a row;
before the last one it makes sure that every name in the text is known.

## What is here

* **Registration.**  `Engine.registerOperator` is `register_operator`: the operator goes into the
  table, and if the grammar does not read its symbol as an operator yet, the pattern of the operator
  rule is written anew from all symbols in the table, longer ones first, so that no symbol hides a
  longer one that begins with it.  The written pattern is read and checked like the pattern of any
  rule, and the grammar may find a defect in it; that it never does, whatever the symbols are, is
  `Engine.registerAll_succeeds`.  `register_function` and `register_constant` leave the grammar
  alone and cannot fail.
* **Settings.**  `Engine.ofSettings` is `from_config` for settings that have been validated, and
  `Engine.ofDocument` validates a document first.  What could go wrong on the way is a
  `SettingsFault`: an operator entry with a function that does not exist, or a symbol that the
  grammar refuses.  `Engine.settings_apply` says that neither happens to settings that have been
  accepted.
* **Stages.**  `tokenize`, `build_notation` and `evaluate_notation` are `Engine.tokenize`,
  `Engine.compile` and `Engine.evaluateListing`; the versions that hand out steps are
  `Engine.compilation` and `Engine.evaluation`.  `is_evaluable` is `Registries.firstUnknown?`.

Everything that evaluates takes the numbers that may come up at random as its first argument, as
`Polish.Evaluate` explains.  A hook of a rule is a function of the match and the tokens so far: one
that raises, or that keeps a state of its own from match to match, is not described, and neither is
what an engine writes to a log.
-/

set_option autoImplicit false

namespace Polish

structure Engine where
  registries : Registries
  limits : Limits
  grammar : Grammar

namespace Engine

open Config (Settings OperatorEntry Validator Value)
open Evaluate (Draws)

/-- A new engine. -/
def standard : Engine := ⟨Registries.standard, Limits.standard, Arithmetic.grammar⟩

/-- A new engine with limits of its own. -/
def withLimits (limits : Limits) : Engine := { standard with limits }

/-! ## Registration -/

/-- Texts sorted by length, longer ones first; texts of one length stay in order. -/
def longestFirst (symbols : List String) : List String :=
  symbols.mergeSort fun a b => b.length ≤ a.length

/-- Makes the grammar read a symbol as an operator, if it does not already.  Everything about the
operator rule but its pattern stays as it is. -/
def learnSymbol (e : Engine) (symbol : String) : Except GrammarDefect Engine :=
  match e.grammar.rules.find? Arithmetic.operatorRule with
  | none => .ok e
  | some rule =>
    if rule.pattern.matchesAll symbol then .ok e
    else do
      let text := Pattern.written (longestFirst e.registries.operators.keys)
      let pattern ← Rule.readPattern rule.name text rule.pattern.ignoreCase
      return { e with grammar := e.grammar.addRule { rule with pattern } }

/-- Adds an operator or replaces the one of that symbol. -/
def registerOperator (e : Engine) (symbol : String) (operator : Operator) :
    Except GrammarDefect Engine :=
  { e with registries := e.registries.registerOperator symbol operator }.learnSymbol symbol

def registerFunction (e : Engine) (name : String) (function : Function) : Engine :=
  { e with registries := e.registries.registerFunction name function }

def registerConstant (e : Engine) (name : String) (value : Float) : Engine :=
  { e with registries := e.registries.registerConstant name value }

/-! ## Settings -/

/-- Why settings cannot be applied. -/
inductive SettingsFault where
  | unknownFunction (name : String)
  | grammar (defect : GrammarDefect)

/-- Registers the operator of an entry, given with its symbol. -/
def applyOperator (e : Engine) (entry : String × OperatorEntry) : Except SettingsFault Engine :=
  match entry.2.operator? with
  | some operator => (e.registerOperator entry.1 operator).mapError .grammar
  | none => .error (.unknownFunction entry.2.function)

/-- Takes a function out of the table. -/
def disableFunction (e : Engine) (name : String) : Engine :=
  { e with registries := { e.registries with functions := e.registries.functions.erase name } }

/-- A new engine with settings applied: constants, then operators, then disabled functions. -/
def ofSettings (settings : Settings) : Except SettingsFault Engine := do
  let e := withLimits (settings.limits.getD Limits.standard)
  let e := settings.constants.entries.foldl (fun e c => e.registerConstant c.1 c.2) e
  let e ← settings.operators.entries.foldlM applyOperator e
  return settings.disabledFunctions.foldl disableFunction e

/-- Why a document does not make an engine. -/
inductive DocumentFault (ε : Type) where
  | invalid (complaint : ε)
  | settings (fault : SettingsFault)

/-- A new engine with the settings of a document applied. -/
def ofDocument {ε : Type} (validate : Validator ε) (document : Value) :
    Except (DocumentFault ε) Engine :=
  match validate Config.schema document with
  | .error complaint => .error (.invalid complaint)
  | .ok settings => (ofSettings settings).mapError .settings

/-! ## Stages -/

/-- The tokens of a text. -/
def tokenize (e : Engine) (text : String) : Except Failure (List Token) :=
  match e.limits.exceeded? .expressionLength text.length none with
  | some limit => .error (.limit limit)
  | none => (e.grammar.parse text e.limits.sameIndex false).mapError .ofScan

/-- The notation of a name. -/
def modeNamed (name : String) : Except Failure Mode :=
  match Mode.ofName? name with
  | some mode => .ok mode
  | none => .error (.mode name)

/-- The compilation of tokens, not yet begun.  A notation that does not exist is refused here. -/
def compilation (e : Engine) (tokens : List Token) (mode : String) (source : Option String) :
    Except Failure (Compile.Run Compile.Compiled) := do
  let mode ← modeNamed mode
  return Compile.Job.run ⟨mode, e.limits, source, tokens⟩

/-- The evaluation of a listing, not yet begun.  A notation that does not exist is refused when it
begins, and that is a failure of the evaluation itself and not its result. -/
def evaluation (e : Engine) (draws : Draws) (listing : List Token) (mode : String)
    (source : Option String) : Evaluate.Run (Except Failure Float) :=
  match modeNamed mode with
  | .error failure => .fail failure
  | .ok mode => (Evaluate.Job.run ⟨mode, e.limits, source, draws⟩ listing).attempt

/-- What the engine shows to a computation on tokens with the given arguments attached. -/
def surroundings (e : Engine) (sheet : Sheet) : Surroundings := ⟨e.registries, sheet⟩

/-- Compiles tokens. -/
def compile (e : Engine) (sheet : Sheet) (tokens : List Token) (mode : String)
    (source : Option String) : Except Failure Compile.Compiled := do
  (← e.compilation tokens mode source).eager (e.surroundings sheet)

/-- Evaluates a listing. -/
def evaluateListing (e : Engine) (draws : Draws) (sheet : Sheet) (listing : List Token)
    (mode : String) (source : Option String) : Except Failure Float := do
  (← (e.evaluation draws listing mode source).eager (e.surroundings sheet))

/-- Why a token that names nothing registered has no value. -/
def unknownName (token : Token) (text : String) : Failure :=
  let cause := if token.kind = .call then .unknownFunction token.text
    else .unknownConstant token.text
  .eval ⟨cause, some token, [], some text⟩

/-- The value of a text. -/
def evaluate (e : Engine) (draws : Draws) (text : String) (mode : String) :
    Except Failure Float := do
  let tokens ← e.tokenize text
  let compiled ← e.compile .empty tokens mode (some text)
  match e.registries.firstUnknown? tokens with
  | some token => .error (unknownName token text)
  | none =>
    let sheet := Sheet.empty.attachAll compiled.attached
    e.evaluateListing draws sheet compiled.listing mode (some text)

end Engine

end Polish
