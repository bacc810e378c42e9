import Polish.StandIn.Yaml.Mark.Basic

/-!
# The texts of scalars

A scalar is written in one of four ways: plain, between single quotes, between double quotes with
escapes, or as a block of lines after `|` or `>`.  All but the block after `|` may be broken into
lines anywhere at a blank: a single line break counts as a space, and of several ones the first
does not count (`fold`).

Every reader here takes the characters from the place where the scalar begins and gives its text
together with what is left.
-/

set_option autoImplicit false

namespace Polish.Yaml.Mark

/-! ## Folded lines -/

/-- What line breaks between two words stand for: the first one and those after it. -/
def fold (first : Char) (more : List Char) : List Char :=
  if first != '\n' then first :: more else if more.isEmpty then [' '] else more

/-! ## Quoted texts -/

def isHexDigit (c : Char) : Bool :=
  c.isDigit || ('a' ≤ c && c ≤ 'f') || ('A' ≤ c && c ≤ 'F')

def hexValue (c : Char) : Nat :=
  if c.isDigit then c.toNat - '0'.toNat else c.toLower.toNat - 'a'.toNat + 10

/-- The value of hexadecimal digits. -/
def natOfHex (digits : List Char) : Nat := digits.foldl (fun n c => 16 * n + hexValue c) 0

/-- What a backslash before a letter stands for. -/
def escape? (c : Char) : Option Char :=
  match c with
  | '0' => some '\x00'
  | 'a' => some '\x07'
  | 'b' => some '\x08'
  | 't' | '\t' => some '\t'
  | 'n' => some '\n'
  | 'v' => some '\x0b'
  | 'f' => some '\x0c'
  | 'r' => some '\r'
  | 'e' => some '\x1b'
  | 'N' => some '\x85'
  | '_' => some '\xa0'
  | 'L' => some '\u2028'
  | 'P' => some '\u2029'
  | ' ' | '"' | '\\' | '/' => some c
  | _ => none

/-- The number of hexadecimal digits after a backslash and a letter. -/
def escapeWidth? (c : Char) : Option Nat :=
  match c with
  | 'x' => some 2
  | 'u' => some 4
  | 'U' => some 8
  | _ => none

/-- The number that some digits at the beginning of a text spell, and the rest of the text. -/
def codePoint? (width : Nat) (s : List Char) : Option (Nat × List Char) :=
  let digits := s.take width
  if digits.length = width ∧ digits.all isHexDigit then some (natOfHex digits, s.drop width)
  else none

/-- The code point of two escapes that are the halves of a surrogate pair. -/
def pair? (high : Nat) (after : List Char) : Option (Nat × List Char) :=
  match after with
  | '\\' :: 'u' :: rest => match codePoint? 4 rest with
    | some (low, rest) =>
      if 0xD800 ≤ high ∧ high < 0xDC00 ∧ 0xDC00 ≤ low ∧ low < 0xE000 then
        some (0x10000 + (high - 0xD800) * 0x400 + (low - 0xDC00), rest)
      else none
    | none => none
  | _ => none

/-- The character that an escape by number stands for, given its width.  Half of a surrogate pair
on its own is no character. -/
def escaped (width : Nat) (s : List Char) : Except Trouble (Char × List Char) :=
  match codePoint? width s with
  | none => .error .malformed
  | some (n, rest) =>
    if 0x80000000 ≤ n then .error .characterOverflow
    else if 0x110000 ≤ n then .error .noCharacter
    else match pair? n rest with
      | some (n, rest) => .ok (Char.ofNat n, rest)
      | none => .ok (if n.isValidChar then Char.ofNat n else '\uFFFD', rest)

/-- Passes over empty lines and the blanks before the next word, given the beginning of a line;
no such line may separate documents. -/
def quotedBreaks : Nat → List Char → Except Trouble (List Char × List Char)
  | 0, _ => .error .malformed
  | fuel + 1, s =>
    if startsSeparator s then .error .malformed
    else match s.dropWhile isBlank with
      | c :: rest =>
        if isBreak c then do
          let (breaks, rest) ← quotedBreaks fuel rest
          .ok (breakValue c :: breaks, rest)
        else .ok ([], c :: rest)
      | [] => .ok ([], [])

/-- Reads a quoted text after its opening quote. -/
def quotedText (double : Bool) : Nat → List Char → Except Trouble (List Char × List Char)
  | 0, _ => .error .malformed
  | fuel + 1, s =>
    let goOn (found rest : List Char) : Except Trouble (List Char × List Char) :=
      (quotedText double fuel rest).map fun (more, rest) => (found ++ more, rest)
    match s with
    | [] => .error .malformed
    | c :: rest =>
      if isBlank c || isBreak c then
        match s.dropWhile isBlank with
        | [] => .error .malformed
        | d :: after =>
          if isBreak d then do
            let (breaks, rest) ← quotedBreaks fuel after
            goOn (fold (breakValue d) breaks) rest
          else goOn (s.takeWhile isBlank) (d :: after)
      else if double then
        match c, rest with
        | '"', rest => .ok ([], rest)
        | '\\', d :: rest =>
          match escape? d, escapeWidth? d with
          | some e, _ => goOn [e] rest
          | none, some width => do
            let (e, rest) ← escaped width rest
            goOn [e] rest
          | none, none =>
            if isBreak d then do
              let (breaks, rest) ← quotedBreaks fuel rest
              goOn breaks rest
            else .error .malformed
        | '\\', [] => .error .malformed
        | c, rest => goOn [c] rest
      else
        match c, rest with
        | '\'', '\'' :: rest => goOn ['\''] rest
        | '\'', rest => .ok ([], rest)
        | c, rest => goOn [c] rest

/-- Reads a text in quotes, given from its opening quote on. -/
def quoted (s : List Char) : Except Trouble (List Char × List Char) :=
  quotedText (peekChar s == '"') (s.length + 1) s.tail

/-! ## Plain texts -/

/-- Whether a character has a meaning of its own between brackets. -/
def isFlowIndicator (c : Char) : Bool := c ∈ [',', '[', ']', '\x7b', '\x7d']

/-- Whether a plain text can begin with a character that no indicator begins with. -/
def isPlainStart (c : Char) : Bool :=
  !isGap c && c ∉ ['-', '?', ':', ',', '[', ']', '\x7b', '\x7d', '#', '&', '*', '!', '|', '>',
    '\'', '"', '%', '@', '\x60']

/-- A run of characters of a plain text, without blanks. -/
def plainRun (inFlow : Bool) : List Char → List Char
  | [] => []
  | c :: rest =>
    let next := peekChar rest
    if isGap c || (c == ':' && (isGap next || (inFlow && isFlowIndicator next)))
        || (inFlow && (c == '?' || isFlowIndicator c)) then []
    else c :: plainRun inFlow rest

/-- Passes over empty lines and the blanks before the next word of a plain text, given the
beginning of a line.  The last component says whether a line that separates documents came. -/
def plainBreaks : List Char → List Char × List Char × Bool
  | [] => ([], [], false)
  | c :: rest =>
    if c == ' ' then plainBreaks rest
    else if isBreak c then
      if startsSeparator rest then ([breakValue c], rest, true)
      else
        let (breaks, rest, stopped) := plainBreaks rest
        (breakValue c :: breaks, rest, stopped)
    else ([], c :: rest, false)

/-- What separates the runs of a plain text. -/
structure PlainGap where
  /-- What the gap stands for; nothing if the text ends here. -/
  text : List Char
  rest : List Char
  /-- Whether the gap goes on to another line. -/
  breaksLine : Bool

def plainGap (s : List Char) : PlainGap :=
  let blanks := s.takeWhile (· == ' ')
  match s.dropWhile (· == ' ') with
  | c :: rest =>
    if isBreak c then
      if startsSeparator rest then ⟨[], rest, true⟩
      else
        let (breaks, rest, stopped) := plainBreaks rest
        ⟨if stopped then [] else fold (breakValue c) breaks, rest, true⟩
    else ⟨blanks, c :: rest, false⟩
  | [] => ⟨blanks, [], false⟩

/-- The text of a plain scalar, the place after it, and whether a line break came before that. -/
structure Plain where
  text : List Char
  after : Cursor
  breaksLine : Bool

/-- Reads a plain text.  In block style it ends before a line that is indented by less than
`indent`. -/
def plainText (inFlow : Bool) (indent : Int) : Nat → Cursor → Plain
  | 0, s => ⟨[], s, false⟩
  | fuel + 1, s =>
    let run := plainRun inFlow s.rest
    let s := s.skip run.length
    let gap := plainGap s.rest
    let next := s.skipTo gap.rest
    if gap.text.isEmpty || next.peek == '#' || (!inFlow && next.column < indent)
        || (plainRun inFlow next.rest).isEmpty then ⟨run, next, gap.breaksLine⟩
    else
      let more := plainText inFlow indent fuel next
      { more with text := run ++ gap.text ++ more.text }

def plain (inFlow : Bool) (indent : Int) (s : Cursor) : Plain :=
  plainText inFlow indent (s.rest.length + 1) s

/-! ## Blocks of lines -/

/-- What comes after the `|` or `>` of a block. -/
structure BlockHeader where
  /-- Whether line breaks at the end are kept (`+`) or all dropped (`-`); without a sign one is
  kept. -/
  keep : Option Bool
  /-- How far the block is indented, beyond what it must be. -/
  indent : Option Nat

def blockSign? (c : Char) : Option Bool :=
  if c == '+' then some true else if c == '-' then some false else none

def blockIndent? (c : Char) : Option Nat :=
  if '1' ≤ c ∧ c ≤ '9' then some (c.toNat - '0'.toNat) else none

/-- Reads the sign and the digit of a header, in any order. -/
def blockHeader (s : List Char) : BlockHeader × List Char :=
  match blockSign? (peekChar s), blockIndent? (peekChar s) with
  | some sign, _ => match blockIndent? (peekChar s.tail) with
    | some n => (⟨some sign, some n⟩, s.tail.tail)
    | none => (⟨some sign, none⟩, s.tail)
  | none, some n => match blockSign? (peekChar s.tail) with
    | some sign => (⟨some sign, some n⟩, s.tail.tail)
    | none => (⟨none, some n⟩, s.tail)
  | none, none => (⟨none, none⟩, s)

/-- The rest of a line that may hold nothing but a comment, and the line after it. -/
def endOfLine (s : List Char) : Except Trouble (List Char) :=
  let s := s.dropWhile (· == ' ')
  let s := if peekChar s == '#' then s.dropWhile (!isBreakOrEnd ·) else s
  match s with
  | [] => .ok []
  | c :: rest => if isBreak c then .ok rest else .error .malformed

/-- Where the lines of a block begin: the breaks of empty lines before, the column, and what is
left. -/
structure BlockStart where
  breaks : List Char
  column : Nat
  rest : List Char

/-- Passes over empty lines and blanks; also gives the greatest column that a blank ends in. -/
def blockDetect : Nat → Nat → List Char → BlockStart × Nat
  | column, widest, [] => (⟨[], column, []⟩, widest)
  | column, widest, c :: rest =>
    if c == ' ' then blockDetect (column + 1) (max widest (column + 1)) rest
    else if isBreak c then
      let (start, widest) := blockDetect 0 widest rest
      ({ start with breaks := breakValue c :: start.breaks }, widest)
    else (⟨[], column, c :: rest⟩, widest)

/-- Passes over empty lines and the indentation of the next line. -/
def blockBreaks (indent : Nat) : Nat → List Char → BlockStart
  | column, [] => ⟨[], column, []⟩
  | column, c :: rest =>
    if c == ' ' && column < indent then blockBreaks indent (column + 1) rest
    else if isBreak c then
      let start := blockBreaks indent 0 rest
      { start with breaks := breakValue c :: start.breaks }
    else ⟨[], column, c :: rest⟩

/-- Reads the lines of a block: its text, and what is left. -/
def blockLines (folded : Bool) (keep : Option Bool) (indent : Nat) :
    Nat → List Char → BlockStart → List Char × List Char
  | 0, _, start => ([], start.rest)
  | fuel + 1, lastBreak, start =>
    if start.column = indent ∧ ¬start.rest.isEmpty then
      let line := start.rest.takeWhile (!isBreakOrEnd ·)
      let (ending, after) := match start.rest.dropWhile (!isBreakOrEnd ·) with
        | c :: rest => ([breakValue c], rest)
        | [] => ([], [])
      let next := blockBreaks indent 0 after
      let between :=
        if ¬(next.column = indent ∧ ¬next.rest.isEmpty) then []
        else if folded && ending == ['\n'] && !isBlank (peekChar line)
            && !isBlank (peekChar next.rest) then
          if next.breaks.isEmpty then [' '] else next.breaks
        else ending ++ next.breaks
      let (text, rest) := blockLines folded keep indent fuel ending next
      (line ++ between ++ text, rest)
    else
      let lastBreak := if keep = some false then [] else lastBreak
      let more := if keep = some true then start.breaks else []
      (lastBreak ++ more, start.rest)

/-- Reads a block after its `|` or `>`; its lines are indented by more than `outer`. -/
def block (folded : Bool) (outer : Int) (s : List Char) :
    Except Trouble (List Char × List Char) := do
  let (header, s) := blockHeader s
  if peekChar s != ' ' && !isBreakOrEnd (peekChar s) then .error .malformed
  else
    let s ← endOfLine s
    let least : Nat := (max (outer + 1) 1).toNat
    let (indent, start) := match header.indent with
      | some n => (least + n - 1, blockBreaks (least + n - 1) 0 s)
      | none =>
        let (start, widest) := blockDetect 0 0 s
        (max least widest, start)
    let (text, rest) := blockLines folded header.keep indent (s.length + 1) [] start
    -- Empty lines before the first line are part of the text.
    .ok (if start.column = indent ∧ ¬start.rest.isEmpty then start.breaks ++ text else text, rest)

end Polish.Yaml.Mark
