import Polish.StandIn.Yaml.Trouble
import Polish.Number.Literal

/-!
# Dates and times

A scalar such as `2001-01-31` or `2001-01-31 12:00:00.5 +01:00` is a date or a time.  `Moment.read?`
knows them by their form alone, `Moment.check` looks into the calendar, and `Moment.text` is how
they are shown.
-/

set_option autoImplicit false

namespace Polish.Yaml

/-- The time of a day, with the distance from universal time in minutes if it is given. -/
structure Clock where
  hour : Nat
  minute : Nat
  second : Nat
  microsecond : Nat
  offset : Option Int
deriving Repr, DecidableEq

structure Moment where
  year : Nat
  month : Nat
  day : Nat
  clock : Option Clock
deriving Repr, DecidableEq

namespace Moment

/-! ## Reading -/

/-- A number of one or two digits. -/
def oneOrTwo? (s : List Char) : Option (Nat × List Char) :=
  let digits := (s.take 2).takeWhile Char.isDigit
  if digits.isEmpty then none else some (Literal.natOfDigits digits, s.drop digits.length)

/-- A number with a fixed count of digits. -/
def exactly? (count : Nat) (s : List Char) : Option (Nat × List Char) :=
  let digits := s.take count
  if digits.length = count ∧ digits.all Char.isDigit then
    some (Literal.natOfDigits digits, s.drop count)
  else none

/-- What comes after a certain character. -/
def after? (c : Char) : List Char → Option (List Char)
  | d :: rest => if d = c then some rest else none
  | [] => none

/-- The digits after the point of a second, in microseconds. -/
def microseconds (digits : List Char) : Nat :=
  Literal.natOfDigits ((digits ++ ['0', '0', '0', '0', '0', '0']).take 6)

/-- The distance from universal time at the end of a time. -/
def offset? (s : List Char) : Option (Option Int) :=
  match s.dropWhile fun c => c == ' ' || c == '\t' with
  | [] => if s.isEmpty then some none else none
  | ['Z'] => some (some 0)
  | c :: rest =>
    if c != '+' && c != '-' then none
    else do
      let (hours, rest) ← oneOrTwo? rest
      let minutes ← match rest with
        | [] => some 0
        | rest => do
          let (minutes, rest) ← exactly? 2 (← after? ':' rest)
          if rest.isEmpty then some minutes else none
      let offset : Int := 60 * hours + minutes
      some (some (if c == '-' then -offset else offset))

def clock? (s : List Char) : Option Clock := do
  let (hour, rest) ← oneOrTwo? s
  let (minute, rest) ← exactly? 2 (← after? ':' rest)
  let (second, rest) ← exactly? 2 (← after? ':' rest)
  let (fraction, rest) := match rest with
    | '.' :: rest => (rest.takeWhile Char.isDigit, rest.dropWhile Char.isDigit)
    | rest => ([], rest)
  some ⟨hour, minute, second, microseconds fraction, ← offset? rest⟩

/-- A date or a time by its form. -/
def read? (s : List Char) : Option Moment := do
  let (year, rest) ← exactly? 4 s
  let (month, rest) ← oneOrTwo? (← after? '-' rest)
  let (day, rest) ← oneOrTwo? (← after? '-' rest)
  match rest with
  | [] => some ⟨year, month, day, none⟩
  | c :: after =>
    let isSpace (c : Char) : Bool := c == ' ' || c == '\t'
    if c == 'T' || c == 't' then some ⟨year, month, day, ← clock? after⟩
    else if isSpace c then some ⟨year, month, day, ← clock? (after.dropWhile isSpace)⟩
    else none

/-- Whether a scalar without quotes is a date or a time.  A date alone has all its digits. -/
def isMoment (s : List Char) : Bool :=
  match read? s with
  | some m => m.clock.isSome || s.length == 10
  | none => false

/-! ## The calendar -/

def isLeap (year : Nat) : Bool := year % 4 == 0 && (year % 100 != 0 || year % 400 == 0)

def daysOfMonth (year month : Nat) : Nat :=
  if month = 2 then if isLeap year then 29 else 28
  else if month ∈ [4, 6, 9, 11] then 30
  else 31

/-- The first part that is out of its range. -/
def fault? (m : Moment) : Option DatePart :=
  let offset := m.clock.bind Clock.offset
  if offset.any fun o => 1440 ≤ o.natAbs then offset.map .offset
  else if m.year = 0 then some .year
  else if m.month = 0 ∨ 12 < m.month then some .month
  else if m.day = 0 ∨ daysOfMonth m.year m.month < m.day then some .day
  else match m.clock with
    | none => none
    | some c =>
      if 23 < c.hour then some .hour
      else if 59 < c.minute then some .minute
      else if 59 < c.second then some .second
      else none

def check (m : Moment) : Except Trouble Moment :=
  match m.fault? with
  | some part => .error (.badDate part)
  | none => .ok m

/-! ## Showing -/

def offsetText (minutes : Int) : String :=
  if minutes = 0 then "datetime.timezone.utc"
  else s!"datetime.timezone(datetime.timedelta({daysAndSeconds minutes}))"

def text (m : Moment) : String :=
  let date := [m.year, m.month, m.day]
  let join (parts : List Nat) : String := ", ".intercalate (parts.map toString)
  match m.clock with
  | none => s!"datetime.date({join date})"
  | some c =>
    let tail := if c.microsecond ≠ 0 then [c.second, c.microsecond]
      else if c.second ≠ 0 then [c.second] else []
    let zone := match c.offset with
      | some minutes => ", tzinfo=" ++ offsetText minutes
      | none => ""
    s!"datetime.datetime({join (date ++ [c.hour, c.minute] ++ tail)}{zone})"

end Moment

end Polish.Yaml
