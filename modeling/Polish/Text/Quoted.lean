import Polish.Text.Printable

/-!
# Quoted texts

How a name or a lexeme is quoted inside a message.  The quote is `'`, unless the text holds a `'`
and no `"`.  The quote in use and the backslash are written with a backslash before them, tab, line
feed and carriage return as `\t`, `\n`, `\r`, and every other character that is not printable by
its code point in two, four or eight hexadecimal digits.
-/

set_option autoImplicit false

namespace Polish.Text

/-- The last `width` hexadecimal digits of a number, lower case, highest first. -/
def hexDigits : Nat → Nat → List Char
  | 0, _ => []
  | width + 1, n => hexDigits width (n / 16) ++ [Nat.digitChar (n % 16)]

/-- A character as it stands between the given quotes. -/
def quotedChar (quote c : Char) : List Char :=
  if c = quote ∨ c = '\\' then ['\\', c]
  else if c = '\t' then ['\\', 't']
  else if c = '\n' then ['\\', 'n']
  else if c = '\r' then ['\\', 'r']
  else if isPrintable c then [c]
  else if c.toNat < 0x100 then '\\' :: 'x' :: hexDigits 2 c.toNat
  else if c.toNat < 0x10000 then '\\' :: 'u' :: hexDigits 4 c.toNat
  else '\\' :: 'U' :: hexDigits 8 c.toNat

/-- The quote that a text is put between. -/
def quoteFor (cs : List Char) : Char := if '\'' ∈ cs ∧ '"' ∉ cs then '"' else '\''

/-- A text between quotes, with escapes for what cannot stand there as it is. -/
def quoted (s : String) : String :=
  let quote := quoteFor s.toList
  String.ofList (quote :: s.toList.flatMap (quotedChar quote) ++ [quote])

end Polish.Text
