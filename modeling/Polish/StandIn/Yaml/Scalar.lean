import Polish.StandIn.Yaml.Moment
import Polish.Config.Value

/-!
# What scalars stand for

Every part of a document has a tag that says what kind of thing it is.  A scalar without quotes
has none of its own: its spelling decides (`Tag.ofPlain`).  The spellings of different tags do not
overlap; a text that is none of them stays a text.

* A truth value is one of the words `yes`, `no`, `true`, `false`, `on` and `off`, in lower case,
  with a capital or in capitals.
* A double has a point; an exponent needs its sign.
* A whole number is decimal, or binary after `0b`, hexadecimal after `0x`, octal after `0`.
* Digits may be grouped by underscores, and parts separated by colons count by sixties: `1:30` is
  90 and `1:30.5` is 90.5.

`Scalar.value` is the value of a text under a tag.
-/

set_option autoImplicit false

namespace Polish.Yaml

open Config (Value)

inductive Tag where
  | null
  | truth
  | whole
  | real
  | moment
  | text
  | list
  | map
  | set
  | pairs
  /-- The key `<<`, whose value is merged into the map. -/
  | merge
  /-- The key `=`. -/
  | standard
  /-- A tag that nothing can be made of. -/
  | other
deriving Repr, DecidableEq

namespace Tag

/-- What the names of all known tags begin with. -/
def core : String := "tag:yaml.org,2002:"

/-- The known tags by name. -/
def names : List (String × Tag) := [
  ("null", .null), ("bool", .truth), ("int", .whole), ("float", .real), ("timestamp", .moment),
  ("str", .text), ("seq", .list), ("map", .map), ("set", .set), ("omap", .pairs),
  ("pairs", .pairs), ("merge", .merge), ("value", .standard)]

/-- The tag of a full name. -/
def ofName (name : String) : Tag :=
  (names.findSome? fun (short, tag) => if core ++ short = name then some tag else none).getD .other

/-! ## Spellings -/

def trueWords : List String := ["yes", "true", "on"]

def falseWords : List String := ["no", "false", "off"]

/-- A word in lower case, with a capital and in capitals. -/
def casings (word : String) : List String := [word, word.capitalize, word.toUpper]

def isTruth (s : String) : Bool :=
  s ∈ trueWords.flatMap casings || s ∈ falseWords.flatMap casings

def isNull (s : String) : Bool := s.isEmpty || s == "~" || s ∈ casings "null"

/-- Whether a character is a digit or groups digits. -/
def isGroup (c : Char) : Bool := c.isDigit || c == '_'

/-- Whether a text is one or more characters of some kind. -/
def among (ok : Char → Bool) (s : List Char) : Bool := !s.isEmpty && s.all ok

/-- Whether a text begins with a digit and goes on with digits in groups. -/
def isDigits (s : List Char) : Bool :=
  match s with
  | c :: rest => c.isDigit && rest.all isGroup
  | [] => false

/-- The parts of a text between colons. -/
def parts : List Char → List (List Char)
  | [] => [[]]
  | c :: rest =>
    if c == ':' then [] :: parts rest
    else match parts rest with
      | part :: more => (c :: part) :: more
      | [] => [[c]]

/-- Whether a part between colons is a number below sixty. -/
def isSixtieth : List Char → Bool
  | [d] => d.isDigit
  | [t, d] => '0' ≤ t && t ≤ '5' && d.isDigit
  | _ => false

/-- Whether a text is an exponent, with its sign, or nothing at all. -/
def isExponent : List Char → Bool
  | [] => true
  | e :: sign :: digits =>
    (e == 'e' || e == 'E') && (sign == '+' || sign == '-') && among Char.isDigit digits
  | _ => false

/-- Whether a text is a double, given also without its sign. -/
def isReal (s unsigned : List Char) : Bool :=
  let whole := unsigned.takeWhile isGroup
  let rest := unsigned.dropWhile isGroup
  let afterPoint (ok : List Char → Bool) : Bool := match rest with
    | '.' :: rest => ok rest
    | _ => false
  let sixties := match (parts unsigned).reverse with
    | last :: middle@(_ :: _) => match middle.reverse with
      | first :: middle =>
        isDigits first && middle.all isSixtieth
          && isSixtieth (last.takeWhile Char.isDigit)
          && (match last.dropWhile Char.isDigit with
            | '.' :: rest => rest.all isGroup
            | _ => false)
      | [] => false
    | _ => false
  let word := String.ofList unsigned
  (isDigits whole && afterPoint fun rest => isExponent (rest.dropWhile isGroup))
    || (s.length == unsigned.length && whole.isEmpty && afterPoint fun rest =>
      isDigits (rest.takeWhile isGroup) && isExponent (rest.dropWhile isGroup))
    || sixties
    || word ∈ [".inf", ".Inf", ".INF"]
    || String.ofList s ∈ [".nan", ".NaN", ".NAN"]

def isHexGroup (c : Char) : Bool :=
  isGroup c || ('a' ≤ c && c ≤ 'f') || ('A' ≤ c && c ≤ 'F')

/-- Whether a text without its sign is a whole number. -/
def isWhole : List Char → Bool
  | ['0'] => true
  | '0' :: 'b' :: digits => among (fun c => c == '0' || c == '1' || c == '_') digits
  | '0' :: 'x' :: digits => among isHexGroup digits
  | '0' :: digits => among (fun c => ('0' ≤ c && c ≤ '7') || c == '_') digits
  | s => match parts s with
    | first :: rest => isDigits first && rest.all isSixtieth
    | [] => false

/-- The tag of a scalar without quotes. -/
def ofPlain (text : String) : Tag :=
  let s := text.toList
  let unsigned := (Literal.sign s).2
  if isTruth text then .truth
  else if isReal s unsigned then .real
  else if isWhole unsigned then .whole
  else if text = "<<" then .merge
  else if isNull text then .null
  else if Moment.isMoment s then .moment
  else if text = "=" then .standard
  else .text

end Tag

namespace Scalar

/-! ## Values -/

def digitValue (c : Char) : Nat :=
  if c.isDigit then c.toNat - '0'.toNat
  else if c.isAlpha then c.toLower.toNat - 'a'.toNat + 10
  else 36

/-- The value of digits in some base. -/
def wholeIn (base : Nat) (digits : List Char) : Except Trouble Int :=
  let digits := Text.trimChars Text.isBlank digits
  if digits.isEmpty || digits.any fun c => base ≤ digitValue c then
    .error (.notWhole base (String.ofList digits))
  else if base = 10 ∧ maxDigits < digits.length then .error (.tooManyDigits digits.length)
  else .ok (digits.foldl (fun n c => base * n + digitValue c) 0 : Nat)

/-- A text without its underscores. -/
def ungrouped (text : String) : List Char := text.toList.filter (· != '_')

/-- The value of a whole number. -/
def wholeValue (text : String) : Except Trouble Int := do
  let (negative, body) := Literal.sign (ungrouped text)
  let magnitude ← match body with
    | [] => .error .emptyNumber
    | ['0'] => .ok 0
    | '0' :: 'b' :: digits => wholeIn 2 digits
    | '0' :: 'x' :: digits => wholeIn 16 digits
    | '0' :: _ => wholeIn 8 body
    | _ => (Tag.parts body).foldlM (fun n part => do return 60 * n + (← wholeIn 10 part)) 0
  .ok (if negative then -magnitude else magnitude)

/-- The value of a part of a double between colons. -/
def realPart (part : List Char) : Except Trouble Float :=
  match Literal.read? (String.ofList part) with
  | some x => .ok x
  | none => .error (.notReal (String.ofList part))

/-- The value of a double.  Parts between colons are added up from the last one. -/
def realValue (text : String) : Except Trouble Float := do
  let s := ungrouped text
  let (negative, body) := Literal.sign (s.map Char.toLower)
  let word := String.ofList body
  if s.isEmpty then .error .emptyNumber
  else if word = ".inf" then .ok (Binary64.signedInfinity negative)
  else if word = ".nan" then .ok Binary64.nan
  else
    let parts ← (Tag.parts body).mapM realPart
    let magnitude := match parts with
      | [x] => x
      | parts => (parts.reverse.foldl (fun (sum, unit) x => (sum + x * unit, unit * 60))
          ((0 : Float), (1 : Float))).1
    .ok (if negative then -magnitude else magnitude)

/-- The value of a truth value. -/
def truthValue (text : String) : Except Trouble Bool :=
  let word := text.toLower
  if word ∈ Tag.trueWords then .ok true
  else if word ∈ Tag.falseWords then .ok false
  else .error (.notTruth word)

/-- The value of a text under a tag. -/
def value (tag : Tag) (text : String) : Except Trouble Value :=
  match tag with
  | .null => .ok .null
  | .truth => (truthValue text).map .bool
  | .whole => (wholeValue text).map .int
  | .real => (realValue text).map .real
  | .moment => match Moment.read? text.toList with
    | some m => m.check.map fun m => .moment m.text
    | none => .error .malformed
  | .text => .ok (.text text)
  | _ => .error .malformed

end Scalar

end Polish.Yaml
