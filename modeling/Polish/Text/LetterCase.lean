/-!
# Upper and lower case

Case pairs of the letters that the library tells apart: the ASCII letters, `é`, and the few other
letters that share a case pair with an ASCII letter — the dotted capital `İ` and the dotless `ı`
with `i`, the long `ſ` with `s`, the kelvin sign with `k`.  `variants` lists the spellings of one
letter, which is all that a pattern that ignores case needs.
-/

set_option autoImplicit false

namespace Polish.Text

/-- The one letter that stands for all spellings of a letter. -/
def foldCase (c : Char) : Char :=
  if c = '\u0130' ∨ c = '\u0131' then 'i'
  else if c = '\u017f' then 's'
  else if c = '\u212a' then 'k'
  else if c = '\u00c9' then '\u00e9'
  else c.toLower

/-- All spellings of a letter, itself among them. -/
def variants (c : Char) : List Char :=
  let base := foldCase c
  [c, base, base.toUpper]
    ++ (if base = 'i' then ['\u0130', '\u0131'] else [])
    ++ (if base = 's' then ['\u017f'] else [])
    ++ (if base = 'k' then ['\u212a'] else [])
    ++ (if base = '\u00e9' then ['\u00c9'] else [])

/-- The pairs of a lower case letter outside ASCII and its capital. -/
def capitals : List (Char × Char) :=
  [('\u0131', 'I'), ('\u017f', 'S'), ('\u00ff', '\u0178'), ('\u03c0', '\u03a0')]

/-- The capital of a letter; the sharp `ß` has two. -/
def upperChar (c : Char) : List Char :=
  let n := c.toNat
  if c = '\u00df' then ['S', 'S']
  else if 0xE0 ≤ n ∧ n ≤ 0xFE ∧ n ≠ 0xF7 then [Char.ofNat (n - 32)]
  else if 0x10428 ≤ n ∧ n ≤ 0x1044F then [Char.ofNat (n - 40)]
  else match capitals.find? (·.1 == c) with
    | some pair => [pair.2]
    | none => [c.toUpper]

def upper (s : String) : String := String.ofList (s.toList.flatMap upperChar)

end Polish.Text
