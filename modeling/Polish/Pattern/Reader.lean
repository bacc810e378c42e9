import Polish.Pattern.Basic

/-!
# Reading a pattern

The written form of a pattern: literal characters, `.`, escapes such as `\d` and `\+`, classes in
brackets, groups `( )` and `(?: )`, a lookahead `(?= )`, alternatives between bars, and the
repetitions `*`, `+`, `?`, `{m}`, `{m,}`, `{,n}`, `{m,n}`.

Reading goes in two steps.  `pieces` cuts the text into atoms, group marks, bars and repetitions,
and finds unfinished classes and unknown escapes.  `assemble` nests the pieces into a `Regex` with
a stack of open groups, and finds unbalanced groups and repetitions of nothing or of a repetition.

A pattern that begins with `^` or `\A` could only ever match at the very beginning of a text, where
rules are tried at every offset; it is refused by `Pattern.ofText`, once it is known to be readable
at all.
-/

set_option autoImplicit false

namespace Polish

namespace Regex

/-! ## Pieces -/

inductive Piece where
  | atom (r : Regex)
  | openGroup (ahead : Bool)
  | closeGroup
  | bar
  | rounds (least : Nat) (most : Option Nat)
deriving Repr, DecidableEq

/-- What a backslash before a character stands for. -/
def escape? (c : Char) : Option ClassItem :=
  match c with
  | 'd' => some (.category .digit false)
  | 'D' => some (.category .digit true)
  | 'w' => some (.category .word false)
  | 'W' => some (.category .word true)
  | 's' => some (.category .blank false)
  | 'S' => some (.category .blank true)
  | 'n' => some (.char '\n')
  | 't' => some (.char '\t')
  | 'r' => some (.char '\r')
  | 'f' => some (.char '\x0c')
  | 'v' => some (.char '\x0b')
  | 'a' => some (.char '\x07')
  | _ => if c.isAlphanum then none else some (.char c)

/-- Reads one member of a class: a character or an escape. -/
def classMember? : List Char → Option (ClassItem × List Char)
  | [] => none
  | ['\\'] => none
  | '\\' :: c :: rest => (escape? c).map fun item => (item, rest)
  | c :: rest => some (.char c, rest)

/-- Reads the members of a class up to the closing bracket, which is a member itself if it comes
first. -/
def classItems? : Nat → List ClassItem → List Char → Option (List ClassItem × List Char)
  | 0, _, _ => none
  | fuel + 1, found, s =>
    match found, s with
    | _ :: _, ']' :: rest => some (found.reverse, rest)
    | _, _ => do
      let (first, rest) ← classMember? s
      match rest with
      | '-' :: ']' :: after => some ((.char '-' :: first :: found).reverse, after)
      | '-' :: after =>
        let (last, after) ← classMember? after
        match first, last with
        | .char lo, .char hi =>
          if hi.toNat < lo.toNat then none else classItems? fuel (.range lo hi :: found) after
        | _, _ => none
      | _ => classItems? fuel (first :: found) rest

/-- Reads a class after its opening bracket. -/
def class? (s : List Char) : Option (Regex × List Char) :=
  match s with
  | '^' :: rest => (classItems? (s.length + 1) [] rest).map fun (items, after) =>
    (.oneOf true items, after)
  | _ => (classItems? (s.length + 1) [] s).map fun (items, after) => (.oneOf false items, after)

/-- The value of a run of ASCII digits. -/
def number (digits : List Char) : Nat :=
  digits.foldl (fun n c => 10 * n + (c.toNat - '0'.toNat)) 0

/-- Reads the bounds of a repetition after its opening brace.  A brace that opens no bounds is an
ordinary character. -/
def bounds? (s : List Char) : Option (Nat × Option Nat × List Char) :=
  let least := s.takeWhile Char.isDigit
  match s.dropWhile Char.isDigit with
  | '}' :: rest => if least.isEmpty then none else some (number least, some (number least), rest)
  | ',' :: more =>
    let most := more.takeWhile Char.isDigit
    match more.dropWhile Char.isDigit with
    | '}' :: rest =>
      some (number least, if most.isEmpty then none else some (number most), rest)
    | _ => none
  | _ => none

/-- Reads one piece off the front of a written pattern. -/
def piece? : List Char → Option (Piece × List Char)
  | [] => none
  | ['\\'] => none
  | '\\' :: c :: rest => (escape? c).map fun item => (.atom (.oneOf false [item]), rest)
  | '.' :: rest => some (.atom .any, rest)
  | '(' :: '?' :: ':' :: rest => some (.openGroup false, rest)
  | '(' :: '?' :: '=' :: rest => some (.openGroup true, rest)
  | '(' :: '?' :: _ => none
  | '(' :: rest => some (.openGroup false, rest)
  | ')' :: rest => some (.closeGroup, rest)
  | '|' :: rest => some (.bar, rest)
  | '*' :: rest => some (.rounds 0 none, rest)
  | '+' :: rest => some (.rounds 1 none, rest)
  | '?' :: rest => some (.rounds 0 (some 1), rest)
  | '[' :: rest => (class? rest).map fun (r, after) => (.atom r, after)
  | '^' :: _ => none
  | '$' :: _ => none
  | '{' :: rest =>
    match bounds? rest with
    | some (least, most, after) => some (.rounds least most, after)
    | none => some (.atom (.char '{'), rest)
  | c :: rest => some (.atom (.char c), rest)

/-- Cuts a written pattern into pieces; each takes at least one character. -/
def pieces : Nat → List Char → Option (List Piece)
  | _, [] => some []
  | 0, _ => none
  | fuel + 1, s => do
    let (piece, rest) ← piece? s
    let more ← pieces fuel rest
    return piece :: more

/-! ## Assembly -/

/-- A group whose end has not been read: the finished alternatives and the items of the current
one, newest first, each item with the mark whether it is a repetition already. -/
structure OpenGroup where
  ahead : Bool
  branches : List Regex
  items : List (Regex × Bool)

namespace OpenGroup

/-- The current alternative as far as it has been read. -/
def branch (g : OpenGroup) : Regex := sequence (g.items.reverse.map Prod.fst)

/-- The group read to its end. -/
def regex (g : OpenGroup) : Regex := choice (g.branch :: g.branches).reverse

def push (g : OpenGroup) (r : Regex) (isRepetition : Bool) : OpenGroup :=
  { g with items := (r, isRepetition) :: g.items }

end OpenGroup

/-- Nests pieces into a pattern, given the innermost open group and those around it. -/
def assemble : List Piece → OpenGroup → List OpenGroup → Option Regex
  | [], g, [] => some g.regex
  | [], _, _ :: _ => none
  | .atom r :: rest, g, around => assemble rest (g.push r false) around
  | .bar :: rest, g, around =>
    assemble rest { g with branches := g.branch :: g.branches, items := [] } around
  | .openGroup looks :: rest, g, around => assemble rest ⟨looks, [], []⟩ (g :: around)
  | .closeGroup :: _, _, [] => none
  | .closeGroup :: rest, g, outer :: around =>
    let r := if g.ahead then .ahead g.regex else g.regex
    assemble rest (outer.push r false) around
  | .rounds least most :: rest, g, around =>
    if most.any (· < least) then none
    else match g.items with
      | (r, false) :: before =>
        assemble rest { g with items := (.repeated least most r, true) :: before } around
      | _ => none

/-- Reads a pattern that may match anywhere. -/
def ofChars? (s : List Char) : Option Regex := do
  assemble (← pieces s.length s) ⟨false, [], []⟩ []

end Regex

/-! ## The reader -/

/-- Why a text is refused as the pattern of a rule. -/
inductive PatternDefect where
  | unreadable
  | boundToStart
deriving Repr, DecidableEq

/-- A written pattern without the mark that binds it to the start of the input, if it has one. -/
def unbound? : List Char → Option (List Char)
  | '^' :: rest => some rest
  | '\\' :: 'A' :: rest => some rest
  | _ => none

/-- Reads a pattern, unreadable ones first and those bound to the start of the input next. -/
def Pattern.ofText (text : String) (ignoreCase : Bool) : Except PatternDefect Pattern :=
  match unbound? text.toList with
  | some rest => .error (if (Regex.ofChars? rest).isSome then .boundToStart else .unreadable)
  | none => match Regex.ofChars? text.toList with
    | some regex => .ok ⟨regex, ignoreCase⟩
    | none => .error .unreadable

end Polish
