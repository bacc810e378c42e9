/-!
# Blanks

The characters that a pattern's `\s` accepts and that are stripped from the ends of a token's text
when it is shown: the white space and separator characters of Unicode together with the four
information separators U+001C to U+001F.
-/

set_option autoImplicit false

namespace Polish.Text

/-- Whether a character is white space. -/
def isBlank (c : Char) : Bool :=
  let n := c.toNat
  (9 ≤ n && n ≤ 13) || (28 ≤ n && n ≤ 32) || n == 0x85 || n == 0xA0 || n == 0x1680
    || (0x2000 ≤ n && n ≤ 0x200A) || n == 0x2028 || n == 0x2029 || n == 0x202F || n == 0x205F
    || n == 0x3000

/-- A text without the characters at both ends that satisfy `drop`. -/
def trimChars (drop : Char → Bool) (cs : List Char) : List Char :=
  ((cs.dropWhile drop).reverse.dropWhile drop).reverse

/-- Without such characters a text stays as it is. -/
theorem trimChars_eq_self {drop : Char → Bool} {cs : List Char} (h : ∀ c ∈ cs, drop c = false) :
    trimChars drop cs = cs := by
  have hdrop (cs : List Char) (hcs : ∀ c ∈ cs, drop c = false) : cs.dropWhile drop = cs := by
    cases cs with
    | nil => rfl
    | cons c cs => rw [List.dropWhile_cons_of_neg (by simp [hcs c List.mem_cons_self])]
  rw [trimChars, hdrop _ h, hdrop _ (by simpa using h), List.reverse_reverse]

/-- A text without the blanks at both ends. -/
def strip (s : String) : String := String.ofList (trimChars isBlank s.toList)

end Polish.Text
