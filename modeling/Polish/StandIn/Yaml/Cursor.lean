/-!
# Places in a document

A `Cursor` is a place in the text of a document: what is ahead of it, and its line and column.
`advance` moves it on by one character and `skip` by several.

Four characters break a line: the line feed, U+0085 and the two separators U+2028 and U+2029.  A
byte order mark takes no column.  The character NUL cannot stand in a document, so `peek` gives it
at the end of the text.
-/

set_option autoImplicit false

namespace Polish.Yaml

/-! ## Classes of characters -/

/-- Whether a line ends with this character. -/
def isBreak (c : Char) : Bool := c == '\n' || c == '\x85' || c == '\u2028' || c == '\u2029'

/-- What a line break stands for inside a text: a line feed, or one of the separators itself. -/
def breakValue (c : Char) : Char := if c == '\x85' then '\n' else c

def isEnd (c : Char) : Bool := c == '\x00'

/-- Whether nothing more comes on the line. -/
def isBreakOrEnd (c : Char) : Bool := isBreak c || isEnd c

/-- Whether a character is a blank, a line break or the end. -/
def isGap (c : Char) : Bool := c == ' ' || c == '\t' || isBreakOrEnd c

/-- A blank inside a line. -/
def isBlank (c : Char) : Bool := c == ' ' || c == '\t'

/-- The byte order mark. -/
def isOrderMark (c : Char) : Bool := c == '\uFEFF'

/-- Whether a character may stand in a document at all. -/
def isAllowed (c : Char) : Bool :=
  let n := c.toNat
  n == 9 || n == 10 || n == 13 || (0x20 ≤ n && n ≤ 0x7E) || n == 0x85
    || (0xA0 ≤ n && n ≤ 0xFFFD) || 0x10000 ≤ n

/-- The first character of a text, NUL at its end. -/
def peekChar : List Char → Char
  | c :: _ => c
  | [] => '\x00'

/-! ## Cursors -/

structure Cursor where
  /-- What is ahead. -/
  rest : List Char
  /-- The number of characters behind. -/
  index : Nat
  line : Nat
  column : Nat

namespace Cursor

/-- The beginning of a text; an order mark there is passed over. -/
def start (text : List Char) : Cursor :=
  match text with
  | c :: rest => if isOrderMark c then ⟨rest, 1, 0, 0⟩ else ⟨text, 0, 0, 0⟩
  | [] => ⟨text, 0, 0, 0⟩

/-- The character ahead, NUL at the end. -/
def peek (s : Cursor) : Char := peekChar s.rest

/-- The character after the one ahead. -/
def peekNext (s : Cursor) : Char := peekChar s.rest.tail

/-- One character further. -/
def advance (s : Cursor) : Cursor :=
  match s.rest with
  | [] => s
  | c :: rest =>
    if isBreak c then ⟨rest, s.index + 1, s.line + 1, 0⟩
    else ⟨rest, s.index + 1, s.line, if isOrderMark c then s.column else s.column + 1⟩

/-- Several characters further. -/
def skip : Nat → Cursor → Cursor
  | 0, s => s
  | n + 1, s => skip n s.advance

/-- The place where `rest`, an end of what is ahead, begins. -/
def skipTo (s : Cursor) (rest : List Char) : Cursor := s.skip (s.rest.length - rest.length)

end Cursor

/-! ## Lines that separate documents -/

/-- Whether a text begins with three times the same mark and a gap. -/
def startsTripled (mark : Char) : List Char → Bool
  | a :: b :: c :: rest => a == mark && b == mark && c == mark && isGap (peekChar rest)
  | _ => false

/-- Whether a line, given from its beginning, starts or ends a document. -/
def startsSeparator (line : List Char) : Bool := startsTripled '-' line || startsTripled '.' line

end Polish.Yaml
