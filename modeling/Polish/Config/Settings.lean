import Polish.Config.Value
import Polish.Limits
import Polish.Registry
import Polish.Text.Quoted

/-!
# Settings

What can be configured of an engine, and what the program declares about it.  `Settings` are the
constants, operators, disabled functions and limits of an engine (`EngineConfig`), and an
`OperatorEntry` describes an operator by the name of its function (`OperatorConfig`).

Documents are not read into settings here.  The program only *declares* what it expects — the fields
with their other spellings and what they are when a document leaves them out, and a check of its own
for function names — and leaves the rest to a library for validation, which goes through a document
with these declarations in hand.  So:

* `schema` holds the declarations;
* `checkFunction` is the check for function names, with its message (`_check_function`);
* a `Validator` is whatever takes declarations and a document and gives settings or a complaint of
  its own kind.  It is a parameter wherever a document is read, in `Engine.ofDocument` and in
  `Settings.load`.

The one thing that is relied on from a validator is `Validator.RunsChecks`: it accepts an operator
entry only with a function name that the declared check has passed.  What it takes for a number or a
truth value, in what order it goes through a document and how it words its complaints is its own
affair.  One that can be run is in `Polish.StandIn.Validator`.
-/

set_option autoImplicit false

namespace Polish.Config

/-! ## Settings -/

/-- An operator to be registered; its function is one of the binary functions, by name. -/
structure OperatorEntry where
  level : Int
  function : String
  rightAssociative : Bool
deriving Repr, DecidableEq

/-- The operator that an entry describes, if its function is known. -/
def OperatorEntry.operator? (entry : OperatorEntry) : Option Operator :=
  (Binary.table.find? entry.function).map fun function =>
    ⟨entry.level, function, entry.rightAssociative⟩

/-- What is applied on top of a new engine. -/
structure Settings where
  /-- Constants to add or replace. -/
  constants : Table Float
  /-- Operators to add or replace, by their symbols. -/
  operators : Table OperatorEntry
  /-- Functions to take out of the table. -/
  disabledFunctions : List String
  limits : Option Limits

/-! ## Function names -/

/-- Names sorted by code point. -/
def sortedNames (names : List String) : List String := names.mergeSort fun a b => !(b < a)

/-- The check of a function name: it passes if it is one of the binary functions. -/
def checkFunction (name : String) : Except String String :=
  if Binary.table.contains name then .ok name
  else
    let known := ", ".intercalate (sortedNames Binary.table.keys)
    .error s!"Unknown binary function {Text.quoted name} (expected one of: {known})"

/-! ## Declarations -/

/-- The declaration of a field: its name, another spelling of the name if there is one, and what the
field is when a document leaves it out, if it may. -/
structure Declaration (α : Type) where
  name : String
  spelling : Option String
  standard : Option α

/-- The fields of settings. -/
structure SettingsFields where
  constants : Declaration (Table Float)
  operators : Declaration (Table OperatorEntry)
  disabledFunctions : Declaration (List String)
  limits : Declaration (Option Limits)

/-- The fields of an operator entry. -/
structure EntryFields where
  level : Declaration Int
  function : Declaration String
  rightAssociative : Declaration Bool
  /-- What a function name has to pass, once it has been found to be a text. -/
  check : String → Except String String

/-- The fields of limits. -/
structure LimitFields where
  expressionLength : Declaration Int
  sameIndex : Declaration Int
  functionArgs : Declaration Int
  callDepth : Declaration Int

/-- All declarations about a document. -/
structure Schema where
  settings : SettingsFields
  entry : EntryFields
  limits : LimitFields
  /-- Whether settings and entries with fields that are not declared are refused. -/
  forbidsExtra : Bool
  /-- Whether a field with another spelling may be given by its own name as well. -/
  takesNames : Bool

/-- The declarations about a document that configures an engine. -/
def schema : Schema where
  settings := {
    constants := ⟨"constants", none, some .empty⟩
    operators := ⟨"operators", none, some .empty⟩
    disabledFunctions := ⟨"disabled_functions", some "disabledFunctions", some []⟩
    limits := ⟨"limits", none, some none⟩ }
  entry := {
    level := ⟨"level", none, none⟩
    function := ⟨"function", none, none⟩
    rightAssociative := ⟨"right_associative", some "rightAssociative", some false⟩
    check := checkFunction }
  limits := {
    expressionLength := ⟨"max_expression_length", none, some Limits.standard.expressionLength⟩
    sameIndex := ⟨"same_index_limit", none, some Limits.standard.sameIndex⟩
    functionArgs := ⟨"max_function_args", none, some Limits.standard.functionArgs⟩
    callDepth := ⟨"max_call_depth", none, some Limits.standard.callDepth⟩ }
  forbidsExtra := true
  takesNames := true

/-! ## Validation -/

/-- What reads settings out of a document, given the declarations about it. -/
abbrev Validator (ε : Type) := Schema → Value → Except ε Settings

/-- The checks that are declared have been made: the function name of each operator entry that is
accepted is one that the declared check has given back.  What a field is when a document leaves it
out is not checked. -/
structure Validator.RunsChecks {ε : Type} (validate : Validator ε) : Prop where
  function_checked : ∀ schema document settings, validate schema document = .ok settings →
    ∀ entry ∈ settings.operators.values,
      (∃ name, schema.entry.check name = .ok entry.function) ∨
        schema.entry.function.standard = some entry.function ∨
        ∃ standard, schema.settings.operators.standard = some standard ∧ entry ∈ standard.values

end Polish.Config
