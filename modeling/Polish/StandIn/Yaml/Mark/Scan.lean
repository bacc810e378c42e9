import Polish.StandIn.Yaml.Mark.Text

/-!
# From a text to its marks

`Mark.scan` makes the list of marks of a text.  It goes through the text once, mark by mark
(`Scanner.step`), and keeps three things beside the place it is at:

* **The indentation.**  Every list and map in block style that is open has a column, the innermost
  one `indent`.  A line that begins further left closes it.  Between brackets indentation does not
  count.
* **The candidates.**  That something was a key shows only at the colon after it.  So the scanner
  remembers, for each level of brackets, the last mark that a key may begin with, and puts the mark
  `key` before it when the colon comes.  The colon must be on the same line and within 1024
  characters.  At a place where block style has no choice but a key, a candidate that turns out
  not to be one is an error.
* **Whether a key may begin here.**  In block style it may do so at the beginning of a line, after
  a dash, after a question mark and after the colon that belongs to a question mark.
-/

set_option autoImplicit false

namespace Polish.Yaml

/-- A mark and the marks that were put before it later. -/
structure Found where
  opening : List Mark
  mark : Mark

/-- A place where a key may begin. -/
structure Candidate where
  /-- The number of marks before it. -/
  count : Nat
  /-- Whether nothing but a key can stand here. -/
  required : Bool
  index : Nat
  line : Nat
  column : Nat

structure Scanner where
  cursor : Cursor
  found : Array Found
  /-- The number of brackets that are open. -/
  level : Nat
  /-- The column of the innermost list or map in block style, -1 outside of any. -/
  indent : Int
  /-- The columns of those around it. -/
  outer : List Int
  keyAllowed : Bool
  /-- The candidates by level. -/
  candidates : List (Nat × Candidate)

namespace Scanner

def start (text : List Char) : Scanner := ⟨Cursor.start text, #[], 0, -1, [], true, []⟩

def inFlow (s : Scanner) : Bool := s.level != 0

def push (s : Scanner) (m : Mark) : Scanner := { s with found := s.found.push ⟨[], m⟩ }

/-- Takes a mark of some characters. -/
def take (s : Scanner) (width : Nat) (m : Mark) : Scanner :=
  { s.push m with cursor := s.cursor.skip width }

def allowKey (s : Scanner) (b : Bool) : Scanner := { s with keyAllowed := b }

/-! ## Blanks between marks -/

/-- The number of characters before the next mark: spaces, line breaks and comments.  A tab is no
such character. -/
def gapLength (inComment : Bool) : List Char → Nat
  | [] => 0
  | c :: rest =>
    if isBreak c then gapLength false rest + 1
    else if inComment || c == '#' then gapLength true rest + 1
    else if c == ' ' then gapLength false rest + 1
    else 0

/-- Goes to the next mark.  On a new line in block style a key may begin. -/
def skipGap (s : Scanner) : Scanner :=
  let next := s.cursor.skip (gapLength false s.cursor.rest)
  { s with
    cursor := next
    keyAllowed := s.keyAllowed || (!s.inFlow && s.cursor.line != next.line) }

/-! ## Indentation -/

/-- Closes what is open in block style and indented by more than `column`. -/
def closeTo (column : Int) : List Int → Scanner → Scanner
  | outer, s =>
    if s.inFlow || s.indent ≤ column then s
    else match outer with
      | [] => s
      | i :: rest => closeTo column rest { s.push .blockEnd with indent := i, outer := rest }

def unwind (s : Scanner) (column : Int) : Scanner := closeTo column s.outer s

/-- Opens a list or a map at a column that is further right than what is open. -/
def indentTo (s : Scanner) (column : Int) : Option Scanner :=
  if s.indent < column then some { s with indent := column, outer := s.indent :: s.outer }
  else none

/-- Opens a list or a map at the present column, with its mark, if there is none yet. -/
def openBlock (s : Scanner) (m : Mark) : Scanner :=
  match s.indentTo s.cursor.column with
  | some s => s.push m
  | none => s

/-! ## Candidates -/

/-- Forgets the candidate of the present level; one that had to be a key is an error. -/
def dropCandidate (s : Scanner) : Except Trouble Scanner :=
  match s.candidates.lookup s.level with
  | some c =>
    if c.required then .error .malformed
    else .ok { s with candidates := s.candidates.filter (·.1 != s.level) }
  | none => .ok s

/-- Makes the mark that comes next a candidate, where a key may begin. -/
def addCandidate (s : Scanner) : Except Trouble Scanner :=
  if s.keyAllowed then do
    let here := s.cursor
    let required := !s.inFlow && s.indent == here.column
    let s ← s.dropCandidate
    let c : Candidate := ⟨s.found.size, required, here.index, here.line, here.column⟩
    .ok { s with candidates := (s.level, c) :: s.candidates }
  else .ok s

/-- Whether the colon after a candidate would come too late. -/
def isStale (s : Scanner) (c : Candidate) : Bool :=
  c.line != s.cursor.line || 1024 < s.cursor.index - c.index

/-- Forgets the candidates for which it is too late. -/
def dropStale (s : Scanner) : Except Trouble Scanner :=
  if s.candidates.any fun (_, c) => s.isStale c && c.required then .error .malformed
  else .ok { s with candidates := s.candidates.filter fun (_, c) => !s.isStale c }

/-! ## Names, tags and directives -/

def isNameChar (c : Char) : Bool := c.isAlphanum || c == '-' || c == '_'

/-- A name of a part of the document after its `&` or `*`. -/
def name (s : List Char) : Except Trouble (String × List Char) :=
  let found := s.takeWhile isNameChar
  let rest := s.dropWhile isNameChar
  let next := peekChar rest
  if found.isEmpty || !(isGap next || next ∈ ['?', ':', ',', ']', '\x7d', '%', '@', '\x60']) then
    .error .malformed
  else .ok (String.ofList found, rest)

def isTagChar (c : Char) : Bool :=
  isNameChar c || c ∈ [';', '/', '?', ':', '@', '&', '=', '+', '$', ',', '.', '!', '~', '*', '\'',
    '(', ')', '[', ']']

/-- The bytes of escapes such as `%41`. -/
def tagBytes : List Char → Except Trouble (List UInt8 × List Char)
  | '%' :: a :: b :: rest =>
    if Mark.isHexDigit a && Mark.isHexDigit b then do
      let (bytes, rest) ← tagBytes rest
      .ok (UInt8.ofNat (Mark.natOfHex [a, b]) :: bytes, rest)
    else .error .malformed
  | '%' :: _ => .error .malformed
  | s => .ok ([], s)

/-- The characters of a tag, escapes decoded. -/
def tagText : Nat → List Char → Except Trouble (List Char × List Char)
  | 0, s => .ok ([], s)
  | fuel + 1, s =>
    if peekChar s == '%' then do
      let (bytes, rest) ← tagBytes s
      match String.fromUTF8? ⟨bytes.toArray⟩ with
      | none => .error .malformed
      | some text =>
        let (more, rest) ← tagText fuel rest
        .ok (text.toList ++ more, rest)
    else if isTagChar (peekChar s) then do
      let (more, rest) ← tagText fuel s.tail
      .ok (peekChar s :: more, rest)
    else .ok ([], s)

/-- A tag that may not be empty. -/
def tagSuffix (s : List Char) : Except Trouble (String × List Char) := do
  let (text, rest) ← tagText (s.length + 1) s
  if s.length = rest.length then .error .malformed else .ok (String.ofList text, rest)

/-- The handle of a tag: `!`, `!!` or `!name!`. -/
def tagHandle (s : List Char) : Except Trouble (String × List Char) :=
  let word := s.tail.takeWhile isNameChar
  let rest := s.tail.dropWhile isNameChar
  if peekChar s != '!' then .error .malformed
  else if peekChar rest == '!' then .ok (String.ofList ('!' :: word ++ ['!']), rest.tail)
  else if word.isEmpty && peekChar rest == ' ' then .ok ("!", rest)
  else .error .malformed

/-- Whether a text has a second `!` before the next blank. -/
def hasHandle (s : List Char) : Bool :=
  (s.takeWhile fun c => c != ' ' && !isBreakOrEnd c).contains '!'

/-- A tag from its `!` on. -/
def tag (s : List Char) : Except Trouble (Mark × List Char) := do
  let rest := s.tail
  let next := peekChar rest
  let (mark, rest) ←
    if next == '<' then do
      let (suffix, rest) ← tagSuffix rest.tail
      if peekChar rest != '>' then .error .malformed else .ok (Mark.tag none suffix, rest.tail)
    else if isGap next then .ok (Mark.tag none "!", rest)
    else do
      let (handle, rest) ← if hasHandle rest then tagHandle s else .ok ("!", rest)
      let (suffix, rest) ← tagSuffix rest
      .ok (Mark.tag (some handle) suffix, rest)
  if peekChar rest == ' ' || isBreakOrEnd (peekChar rest) then .ok (mark, rest)
  else .error .malformed

/-- A number of a `%YAML` line. -/
def versionNumber (s : List Char) : Except Trouble (Nat × List Char) :=
  let digits := s.takeWhile Char.isDigit
  if digits.isEmpty then .error .malformed
  else if maxDigits < digits.length then .error (.tooManyDigits digits.length)
  else .ok (digits.foldl (fun n c => 10 * n + (c.toNat - '0'.toNat)) 0, s.dropWhile Char.isDigit)

/-- What comes after the name in a line that begins with `%`. -/
def directiveValue (name : String) (s : List Char) : Except Trouble (Mark × List Char) :=
  let s' := s.dropWhile (· == ' ')
  if name = "YAML" then do
    let (major, rest) ← versionNumber s'
    if peekChar rest != '.' then .error .malformed
    else
      let (_, rest) ← versionNumber rest.tail
      .ok (.version major, rest)
  else if name = "TAG" then do
    let (handle, rest) ← tagHandle s'
    if peekChar rest != ' ' then .error .malformed
    else
      let (expansion, rest) ← tagSuffix (rest.dropWhile (· == ' '))
      .ok (.handle handle expansion, rest)
  else .ok (.remark, s.dropWhile (!isBreakOrEnd ·))

/-- A line from its `%` on. -/
def directive (s : List Char) : Except Trouble (Mark × List Char) := do
  let name := s.tail.takeWhile isNameChar
  let rest := s.tail.dropWhile isNameChar
  let ends (s : List Char) : Bool := peekChar s == ' ' || isBreakOrEnd (peekChar s)
  if name.isEmpty || !ends rest then .error .malformed
  else
    let (mark, rest) ← directiveValue (String.ofList name) rest
    if !ends rest then .error .malformed else .ok (mark, ← Mark.endOfLine rest)

/-! ## Marks -/

/-- The beginning and the end of a document, and directives, close everything in block style. -/
def closeAll (s : Scanner) : Except Trouble Scanner := do
  return (← (s.unwind (-1)).dropCandidate).allowKey false

/-- A mark that may be the beginning of a key. -/
def takeNode (s : Scanner) (read : List Char → Except Trouble (Mark × List Char)) :
    Except Trouble Scanner := do
  let s ← s.addCandidate
  let (mark, rest) ← read s.cursor.rest
  .ok { (s.push mark).allowKey false with cursor := s.cursor.skipTo rest }

def takeNamed (s : Scanner) (mark : String → Mark) : Except Trouble Scanner :=
  s.takeNode fun text => do
    let (name, rest) ← name text.tail
    .ok (mark name, rest)

def takeQuoted (s : Scanner) : Except Trouble Scanner :=
  s.takeNode fun text => do
    let (t, rest) ← Mark.quoted text
    .ok (.scalar (String.ofList t) false, rest)

def takePlain (s : Scanner) : Except Trouble Scanner := do
  let s ← s.addCandidate
  let read := Mark.plain s.inFlow (s.indent + 1) s.cursor
  let s := s.push (.scalar (String.ofList read.text) true)
  .ok { s.allowKey read.breaksLine with cursor := read.after }

def takeBlockText (s : Scanner) (folded : Bool) : Except Trouble Scanner := do
  let s ← s.dropCandidate
  let (text, rest) ← Mark.block folded s.indent s.cursor.rest.tail
  let s := s.push (.scalar (String.ofList text) false)
  .ok { s.allowKey true with cursor := s.cursor.skipTo rest }

def takeOpening (s : Scanner) (m : Mark) : Except Trouble Scanner := do
  let s ← s.addCandidate
  .ok ({ s with level := s.level + 1 }.allowKey true |>.take 1 m)

def takeClosing (s : Scanner) (m : Mark) : Except Trouble Scanner := do
  let s ← s.dropCandidate
  .ok ({ s with level := s.level - 1 }.allowKey false |>.take 1 m)

def takeComma (s : Scanner) : Except Trouble Scanner := do
  return (← s.dropCandidate).allowKey true |>.take 1 .comma

/-- A dash, which opens a list if there is none at its column yet. -/
def takeDash (s : Scanner) : Except Trouble Scanner := do
  if !s.inFlow && !s.keyAllowed then .error .malformed
  else
    let s := if s.inFlow then s else s.openBlock .blockList
    return (← s.dropCandidate).allowKey true |>.take 1 .dash

/-- A question mark before a key. -/
def takeKey (s : Scanner) : Except Trouble Scanner := do
  if !s.inFlow && !s.keyAllowed then .error .malformed
  else
    let s := if s.inFlow then s else s.openBlock .blockMap
    return (← s.dropCandidate).allowKey (!s.inFlow) |>.take 1 .key

/-- Puts marks before the one that a candidate begins with. -/
def openAt (s : Scanner) (c : Candidate) (marks : List Mark) : Scanner :=
  { s with found := s.found.modify c.count fun f => { f with opening := marks ++ f.opening } }

/-- A colon.  If there is a candidate then it is a key. -/
def takeColon (s : Scanner) : Except Trouble Scanner :=
  match s.candidates.lookup s.level with
  | some c =>
    let s := { s with candidates := s.candidates.filter (·.1 != s.level) }
    let s := match if s.inFlow then none else s.indentTo c.column with
      | some s => s.openAt c [.blockMap, .key]
      | none => s.openAt c [.key]
    .ok (s.allowKey false |>.take 1 .colon)
  | none => do
    if !s.inFlow && !s.keyAllowed then .error .malformed
    else
      let s := if s.inFlow then s else s.openBlock .blockMap
      return (← s.dropCandidate).allowKey (!s.inFlow) |>.take 1 .colon

/-- Takes the next mark; `none` at the end of the text. -/
def step (s : Scanner) : Except Trouble (Option Scanner) := do
  let s ← s.skipGap.dropStale
  let s := s.unwind s.cursor.column
  let c := s.cursor.peek
  let gapNext := isGap s.cursor.peekNext
  let atMargin := s.cursor.column == 0
  if isEnd c then return none
  else if c == '%' && atMargin then
    let s ← s.closeAll
    let (mark, rest) ← directive s.cursor.rest
    return some { s.push mark with cursor := s.cursor.skipTo rest }
  else if atMargin && startsTripled '-' s.cursor.rest then
    return some ((← s.closeAll).take 3 .documentStart)
  else if atMargin && startsTripled '.' s.cursor.rest then
    return some ((← s.closeAll).take 3 .documentEnd)
  else if c == '[' then s.takeOpening .openList
  else if c == '\x7b' then s.takeOpening .openMap
  else if c == ']' then s.takeClosing .closeList
  else if c == '\x7d' then s.takeClosing .closeMap
  else if c == ',' then s.takeComma
  else if c == '-' && gapNext then s.takeDash
  else if c == '?' && (s.inFlow || gapNext) then s.takeKey
  else if c == ':' && (s.inFlow || gapNext) then s.takeColon
  else if c == '*' then s.takeNamed .link
  else if c == '&' then s.takeNamed .anchor
  else if c == '!' then s.takeNode tag
  else if c == '|' && !s.inFlow then s.takeBlockText false
  else if c == '>' && !s.inFlow then s.takeBlockText true
  else if c == '\'' || c == '"' then s.takeQuoted
  else if Mark.isPlainStart c || (!gapNext && (c == '-' || (!s.inFlow && (c == '?' || c == ':'))))
    then s.takePlain
  else .error .malformed

/-! ## All marks -/

/-- The marks so far. -/
def marks (s : Scanner) : List Mark := s.found.toList.flatMap fun f => f.opening ++ [f.mark]

/-- The marks that nothing can be put before any more. -/
def settled (s : Scanner) : List Mark :=
  let count := s.candidates.foldl (fun n (_, c) => min n c.count) s.found.size
  (s.found.toList.take count).flatMap fun f => f.opening ++ [f.mark]

/-- Closes what is open at the end of the text. -/
def finish (s : Scanner) : Except Trouble Scanner := do
  let s ← s.skipGap.dropStale
  (s.unwind (-1)).dropCandidate

def run : Nat → Scanner → List Mark
  | 0, s => s.marks
  | fuel + 1, s =>
    match s.step with
    | .ok (some next) => run fuel next
    | .ok none => match s.finish with
      | .ok s => s.marks
      | .error t => s.settled ++ [.trouble t]
    | .error t => s.settled ++ [.trouble t]

end Scanner

/-- The marks of a text.  If it stops making sense, the marks up to there that are certain, and
the cause. -/
def Mark.scan (text : List Char) : List Mark :=
  if text.all isAllowed then (Scanner.start text).run (text.length + 1) else [.trouble .malformed]

end Polish.Yaml
