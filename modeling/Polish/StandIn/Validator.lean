import Polish.Config.Settings
import Polish.Number.Literal
import Polish.Number.Shortest

/-!
# A validator

This is a `Config.Validator` that can be run: it reads settings out of a document, given the
declarations about it, and finds all complaints at once, each with the path to the place it is
about.  It stands in for a library.  An engine may be configured through any other validator, and
nothing that is proved about engines depends on this one; all there is to say about it is
`Lenient.runsChecks_validate`, that it makes the checks that are declared.

A field with another spelling may have either one.  If both are there the other spelling counts and
the name is a field too many.  Scalars are read leniently: a whole number may come as a text or as a
double without a fraction, a double as a text, a truth value as a number or as one of the usual
words.
-/

set_option autoImplicit false

namespace Polish.Lenient

open Config

/-! ## Complaints -/

/-- One step of the path to a place in a document. -/
inductive PathStep where
  | name (key : String)
  | index (n : Int)
deriving Repr, DecidableEq

def PathStep.text : PathStep → String
  | .name key => key
  | .index n => toString n

inductive ComplaintKind where
  | notAModel
  | notADict
  | notALimitsRecord
  | notAList
  | notAText
  | extraField
  | badKey
  | unknownLimit
  | missing
  | notAFloat
  | badFloat
  | notAnInt
  | badInt
  | hugeInt
  | fractionalInt
  | infiniteInt
  | notABool
  | badBool
  /-- What a declared check says. -/
  | refused (reason : String)
deriving Repr, DecidableEq

def ComplaintKind.name : ComplaintKind → String
  | .notAModel => "model_type"
  | .notADict => "dict_type"
  | .notALimitsRecord => "dataclass_type"
  | .notAList => "list_type"
  | .notAText => "string_type"
  | .extraField => "extra_forbidden"
  | .badKey => "invalid_key"
  | .unknownLimit => "unexpected_keyword_argument"
  | .missing => "missing"
  | .notAFloat => "float_type"
  | .badFloat => "float_parsing"
  | .notAnInt => "int_type"
  | .badInt => "int_parsing"
  | .hugeInt => "int_parsing_size"
  | .fractionalInt => "int_from_float"
  | .infiniteInt => "finite_number"
  | .notABool => "bool_type"
  | .badBool => "bool_parsing"
  | .refused _ => "value_error"

/-- Something wrong with a document, and where. -/
structure Complaint where
  path : List PathStep
  kind : ComplaintKind
deriving Repr, DecidableEq

namespace Complaint

/-- The wording of a complaint that a declared check has made. -/
def message? (c : Complaint) : Option String :=
  match c.kind with
  | .refused reason => some s!"Value error, {reason}"
  | _ => none

/-- What complaints are sorted by: the path, then the kind. -/
def sortKey (c : Complaint) : List String × String := (c.path.map PathStep.text, c.kind.name)

/-- Complaints by path and kind; numbers in a path are compared as texts. -/
def sort (cs : List Complaint) : List Complaint :=
  cs.mergeSort fun a b =>
    if a.sortKey.1 = b.sortKey.1 then !(b.sortKey.2 < a.sortKey.2)
    else a.sortKey.1 < b.sortKey.1

end Complaint

/-! ## Checks that find all complaints -/

/-- A value read from a document, or everything that is wrong with it. -/
abbrev Checked (α : Type) := Except (List Complaint) α

namespace Checked

variable {α β γ : Type}

def complain (path : List PathStep) (kind : ComplaintKind) : Checked α := .error [⟨path, kind⟩]

/-- Two checks side by side: the complaints of both are found. -/
def both (f : α → β → γ) : Checked α → Checked β → Checked γ
  | .ok a, .ok b => .ok (f a b)
  | .ok _, .error es => .error es
  | .error es, .ok _ => .error es
  | .error es, .error es' => .error (es ++ es')

/-- A check on each member of a list. -/
def each (check : α → Checked β) : List α → Checked (List β)
  | [] => .ok []
  | a :: rest => both List.cons (check a) (each check rest)

end Checked

open Checked

/-! ## Scalars -/

/-- The double that a text without blanks around it spells, in ASCII digits only. -/
def plainFloat? (s : List Char) : Option Float :=
  let (negative, body) := Literal.sign s
  Literal.word? negative body <|> Literal.decimal? negative body

/-- A text without its underscores, if each one stands alone inside the text. -/
def joinUnderscores? (s : List Char) : Option (List Char) :=
  let isDouble := (s.zip s.tail).any fun (a, b) => a == '_' && b == '_'
  if s.head? = some '_' ∨ s.getLast? = some '_' ∨ '_' ∉ s ∨ isDouble then none
  else some (s.filter (· != '_'))

/-- The double that a text stands for. -/
def floatOfText? (s : String) : Option Float :=
  let trim := Text.trimChars Literal.isOuterBlank
  plainFloat? (trim s.toList)
    <|> (joinUnderscores? s.toList).bind fun joined => plainFloat? (trim joined)

/-- A number as a double.  A whole number beyond the range of doubles is none. -/
def readFloat (path : List PathStep) : Value → Checked Float
  | .int n =>
    let x := Binary64.ofInt n
    if x.isFinite then .ok x else complain path .notAFloat
  | .real x => .ok x
  | .bool b => .ok (if b then 1 else 0)
  | .text s => match floatOfText? s with
    | some x => .ok x
    | none => complain path .badFloat
  | _ => complain path .notAFloat

/-- Whether a text is empty or a point and then one or more zeros. -/
def isZeroFraction : List Char → Bool
  | [] => true
  | '.' :: zeros => !zeros.isEmpty && zeros.all (· == '0')
  | _ => false

/-- The whole number that a text stands for; a fraction of zeros does not count.  Beyond 4300
characters, zeros at the beginning apart, a number is too large. -/
def intOfText (path : List PathStep) (s : String) : Checked Int :=
  let (negative, body) := Literal.sign (Text.trimChars Literal.isOuterBlank s.toList)
  let isGroup (c : Char) : Bool := c.isDigit || c == '_'
  match Literal.joinGroups? false (body.takeWhile isGroup) with
  | none => complain path .badInt
  | some digits =>
    if digits.isEmpty || !isZeroFraction (body.dropWhile isGroup) then complain path .badInt
    else
      let size := (digits.dropWhile (· == '0')).length + (if negative then 1 else 0)
      let n : Int := Literal.natOfDigits digits
      if 4300 < size then complain path .hugeInt else .ok (if negative then -n else n)

/-- A double as a whole number. -/
def intOfFloat (path : List PathStep) (x : Float) : Checked Int :=
  if !x.isFinite then complain path .infiniteInt
  else if x.floor != x then complain path .fractionalInt
  else if x.abs < 9223372036854775808 then .ok (Binary64.truncate x)
  else complain path .hugeInt

def readInt (path : List PathStep) : Value → Checked Int
  | .int n => .ok n
  | .bool b => .ok (if b then 1 else 0)
  | .real x => intOfFloat path x
  | .text s => intOfText path s
  | _ => complain path .notAnInt

/-- Whether a whole number fits into a signed word of 64 bits. -/
def fitsWord (n : Int) : Bool := -0x8000000000000000 ≤ n && n < 0x8000000000000000

/-- The truth value that a number stands for.  A number that fits into no word is not even a wrong
truth value. -/
def boolOfInt (path : List PathStep) (n : Int) : Checked Bool :=
  if n = 0 then .ok false
  else if n = 1 then .ok true
  else complain path (if fitsWord n then .badBool else .notABool)

def readBool (path : List PathStep) : Value → Checked Bool
  | .bool b => .ok b
  | .int n => boolOfInt path n
  | .real x => match intOfFloat path x with
    | .ok n => boolOfInt path n
    | .error _ => complain path .notABool
  | .text s =>
    let word := s.toLower
    if word ∈ ["0", "off", "f", "false", "n", "no"] then .ok false
    else if word ∈ ["1", "on", "t", "true", "y", "yes"] then .ok true
    else complain path .badBool
  | _ => complain path .notABool

def readText (path : List PathStep) : Value → Checked String
  | .text s => .ok s
  | _ => complain path .notAText

/-! ## Records -/

/-- The step of a path that a key makes.  Whole numbers that fit into a word stay numbers. -/
def keyStep : Value → PathStep
  | .text s => .name s
  | .int n => if fitsWord n then .index n else .name (toString n)
  | .bool b => .index (if b then 1 else 0)
  | .real x => .name (Shortest.text x)
  | .moment shown => .name shown
  | _ => .name "None"

/-- The spellings of a field, the one that counts first. -/
def spellings {α : Type} (takesNames : Bool) (field : Declaration α) : List String :=
  match field.spelling with
  | none => [field.name]
  | some other => if takesNames then [other, field.name] else [other]

/-- A field in use: its spelling there, with its value. -/
def field? {α : Type} (takesNames : Bool) (entries : List (Value × Value)) (field : Declaration α) :
    Option (String × Value) :=
  (spellings takesNames field).findSome? fun name =>
    (Value.entry? name entries).map fun value => (name, value)

/-- Complains about every key that is no text, and about those not in use if they are forbidden. -/
def checkKeys (forbidden : Bool) (path : List PathStep) (inUse : List String)
    (extra : ComplaintKind) (entries : List (Value × Value)) : Checked (List Unit) :=
  each (fun (key, _) => match key with
    | .text name =>
      if !forbidden || name ∈ inUse then .ok () else complain (path ++ [.name name]) extra
    | key => complain (path ++ [keyStep key]) .badKey) entries

/-- Reads a field, which is what its declaration says if it is left out. -/
def readField {α : Type} (path : List PathStep) (read : List PathStep → Value → Checked α)
    (field : Declaration α) : Option (String × Value) → Checked α
  | some (name, value) => read (path ++ [.name name]) value
  | none => match field.standard with
    | some value => .ok value
    | none => complain (path ++ [.name field.name]) .missing

/-- Reads a map with texts as keys. -/
def readTable {α : Type} (read : List PathStep → Value → Checked α) (path : List PathStep) :
    Value → Checked (Table α)
  | .map entries =>
    (each (fun (key, value) =>
      let inside := path ++ [keyStep key]
      both Prod.mk (readText (inside ++ [.name "[key]"]) key) (read inside value)) entries).map
        Table.ofList
  | _ => complain path .notADict

/-- The spellings in use of some fields. -/
def namesInUse (fields : List (Option (String × Value))) : List String :=
  fields.filterMap fun found => found.map Prod.fst

/-! ## Settings -/

/-- Reads a text that has to pass a check. -/
def readChecked (check : String → Except String String) (path : List PathStep) (v : Value) :
    Checked String :=
  match readText path v with
  | .ok name => match check name with
    | .ok name => .ok name
    | .error reason => complain path (.refused reason)
  | .error es => .error es

variable (schema : Schema)

def readEntry (path : List PathStep) : Value → Checked OperatorEntry
  | .map entries =>
    let fields := schema.entry
    let level := field? schema.takesNames entries fields.level
    let function := field? schema.takesNames entries fields.function
    let right := field? schema.takesNames entries fields.rightAssociative
    both (fun entry _ => entry)
      (both (fun (level, function) right => ⟨level, function, right⟩)
        (both Prod.mk (readField path readInt fields.level level)
          (readField path (readChecked fields.check) fields.function function))
        (readField path readBool fields.rightAssociative right))
      (checkKeys schema.forbidsExtra path (namesInUse [level, function, right]) .extraField entries)
  | _ => complain path .notAModel

def readNames (path : List PathStep) : Value → Checked (List String)
  | .list items =>
    each (fun (item, i) => readText (path ++ [.index i]) item) items.zipIdx
  | _ => complain path .notAList

/-- Reads limits, which may be null; their fields have one spelling each. -/
def readLimits (path : List PathStep) : Value → Checked (Option Limits)
  | .null => .ok none
  | .map entries =>
    let fields := schema.limits
    let read (field : Declaration Int) : Checked Int :=
      readField path readInt field (field? schema.takesNames entries field)
    let all := [fields.expressionLength, fields.sameIndex, fields.functionArgs, fields.callDepth]
    both (fun limits _ => some limits)
      (both (fun (length, same) (args, depth) => ⟨length, same, args, depth⟩)
        (both Prod.mk (read fields.expressionLength) (read fields.sameIndex))
        (both Prod.mk (read fields.functionArgs) (read fields.callDepth)))
      (checkKeys true path (all.map Declaration.name) .unknownLimit entries)
  | _ => complain path .notALimitsRecord

/-- Reads the settings of a document. -/
def validate : Validator (List Complaint) := fun schema document =>
  match document with
  | .map entries =>
    let fields := schema.settings
    let constants := field? schema.takesNames entries fields.constants
    let operators := field? schema.takesNames entries fields.operators
    let disabled := field? schema.takesNames entries fields.disabledFunctions
    let limits := field? schema.takesNames entries fields.limits
    both (fun settings _ => settings)
      (both (fun (constants, operators) (disabled, limits) =>
          ⟨constants, operators, disabled, limits⟩)
        (both Prod.mk (readField [] (readTable readFloat) fields.constants constants)
          (readField [] (readTable (readEntry schema)) fields.operators operators))
        (both Prod.mk (readField [] readNames fields.disabledFunctions disabled)
          (readField [] (readLimits schema) fields.limits limits)))
      (checkKeys schema.forbidsExtra [] (namesInUse [constants, operators, disabled, limits])
        .extraField entries)
  | _ => complain [] .notAModel

end Polish.Lenient
