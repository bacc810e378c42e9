/-!
# Writing a choice between texts as a pattern

An engine that is told a new operator symbol writes down a pattern for all its symbols: each one
with a backslash before the characters that would stand for something else in a pattern, and bars
between them.  The pattern is then read like any other one (see `Polish.Pattern.Reader`); that it is
read as the choice it is meant to be is `Pattern.ofText_written`.

`Regex.written` is what `re.escape` does to a character, and `Pattern.written` is the text that
`register_operator` joins from the escaped symbols.
-/

set_option autoImplicit false

namespace Polish

namespace Regex

/-- The characters that are written with a backslash. -/
def marks : List Char :=
  ['(', ')', '[', ']', '{', '}', '?', '*', '+', '-', '|', '^', '$', '\\', '.', '&', '~', '#', ' ',
    '\t', '\n', '\r', '\x0b', '\x0c']

/-- A character as it is written in a pattern. -/
def written (c : Char) : List Char := if c ∈ marks then ['\\', c] else [c]

/-- Texts as they are written, with bars between them. -/
def writtenChoice : List (List Char) → List Char
  | [] => []
  | [text] => text.flatMap written
  | text :: rest => text.flatMap written ++ '|' :: writtenChoice rest

end Regex

/-- The choice between some texts as it is written. -/
def Pattern.written (texts : List String) : String :=
  String.ofList (Regex.writtenChoice (texts.map String.toList))

end Polish
