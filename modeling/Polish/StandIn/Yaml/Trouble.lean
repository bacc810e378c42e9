import Polish.Text.Quoted

/-!
# What keeps a document from being read

Nearly always a document is simply `malformed`.  The other causes are scalars that look well
formed and have no value: a date that the calendar does not have, a number with too many digits
or with none, an escape for a character that does not exist.
-/

set_option autoImplicit false

namespace Polish.Yaml

/-- A part of a date that is out of its range. -/
inductive DatePart where
  | year
  | month
  | day
  | hour
  | minute
  | second
  | offset (minutes : Int)
deriving Repr, DecidableEq

/-- Minutes as days and seconds; the seconds are not negative. -/
def daysAndSeconds (minutes : Int) : String :=
  let days := minutes.fdiv 1440
  let seconds := 60 * minutes.fmod 1440
  if days = 0 then s!"seconds={seconds}"
  else if seconds = 0 then s!"days={days}"
  else s!"days={days}, seconds={seconds}"

def DatePart.message : DatePart → String
  | .year => "year 0 is out of range"
  | .month => "month must be in 1..12"
  | .day => "day is out of range for month"
  | .hour => "hour must be in 0..23"
  | .minute => "minute must be in 0..59"
  | .second => "second must be in 0..59"
  | .offset minutes =>
    "offset must be a timedelta strictly between -timedelta(hours=24) and timedelta(hours=24), "
      ++ s!"not datetime.timedelta({daysAndSeconds minutes})."

/-- Why a document cannot be read. -/
inductive Trouble where
  | malformed
  /-- An escape beyond the last code point. -/
  | noCharacter
  /-- An escape beyond the range of a signed word. -/
  | characterOverflow
  /-- A decimal number with more digits than are read. -/
  | tooManyDigits (digits : Nat)
  /-- A text that is no whole number in some base. -/
  | notWhole (base : Nat) (text : String)
  /-- A text that is no double. -/
  | notReal (text : String)
  /-- A text that is no truth value. -/
  | notTruth (word : String)
  /-- A number without any character. -/
  | emptyNumber
  | badDate (part : DatePart)
deriving Repr, DecidableEq

/-- The most decimal digits that are read as a whole number. -/
def maxDigits : Nat := 4300

def Trouble.message : Trouble → String
  | .malformed => ""
  | .noCharacter => "chr() arg not in range(0x110000)"
  | .characterOverflow => "int too large to convert to C int"
  | .tooManyDigits n =>
    s!"Exceeds the limit ({maxDigits} digits) for integer string conversion: value has {n} digits; "
      ++ "use sys.set_int_max_str_digits() to increase the limit"
  | .notWhole base text => s!"invalid literal for int() with base {base}: {Text.quoted text}"
  | .notReal text => s!"could not convert string to float: {Text.quoted text}"
  | .notTruth word => Text.quoted word
  | .emptyNumber => "string index out of range"
  | .badDate part => part.message

end Polish.Yaml
