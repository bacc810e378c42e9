import Polish.Number.Literal
import Polish.Proofs.Grammar.Words

/-!
# Every number of a text can be read

What the arithmetic grammar takes for a number is a literal.  The two sides describe numbers in
different ways: the grammar by a pattern that gives back what it cannot use, with digits of every
script, and evaluation by a reader that turns the digits into the ASCII ones first and then goes
over the text once.

* `plainChar_of_isDigit` and `plainChar_of_isSign` — the first turn of the reader makes ASCII digits
  of the digits and leaves everything else in a number as it is;
* `decimal?_append` — what the reader makes of the parts of a number;
* `read?_numeral` — every number has a value.

## How the proof goes

A numeral is known in its parts (`Numeral`), and the reader goes over the text from the left.  So
the proof splits the text where the parts meet, and all that has to be seen there is that a part
does not go on into the next one: digits end at a point or at the letter of the exponent, and a sign
is followed by a digit.  Whether the reader takes the number for one of its words does not matter,
as it has a value then, too.
-/

set_option autoImplicit false

namespace Polish.Literal

open Arithmetic (Numeral isSign)
open Text (isDigit)

variable {c : Char} {cs ds rest : List Char}

/-! ## The text made plain -/

/-- A digit becomes the ASCII digit of its value. -/
theorem plainChar_of_isDigit (h : isDigit c = true) : (plainChar c).isDigit = true := by
  obtain ⟨d, hd⟩ := Option.isSome_iff_exists.1 h
  have hdigits : ∀ d < 10, (Nat.digitChar d).isDigit = true := by decide
  rw [plainChar, hd]
  exact hdigits d (Text.digitValue?_lt hd)

theorem plainChar_of_isSign (h : isSign c = true) : plainChar c = c := by
  simp only [isSign, List.mem_cons, List.not_mem_nil, or_false, decide_eq_true_eq] at h
  rcases h with rfl | rfl <;> decide

theorem isDigit_map (hds : ∀ d ∈ ds, isDigit d = true) :
    ∀ d ∈ ds.map plainChar, d.isDigit = true := by
  intro d hd
  obtain ⟨c, hc, rfl⟩ := List.mem_map.1 hd
  exact plainChar_of_isDigit (hds c hc)

/-- Without underscores there is nothing to take out. -/
theorem joinGroups?_eq_self (h : '_' ∉ cs) (afterDigit : Bool) :
    joinGroups? afterDigit cs = some cs := by
  induction cs generalizing afterDigit with
  | nil => rfl
  | cons c cs ih =>
    rw [List.mem_cons, not_or] at h
    have hstep : joinGroups? afterDigit (c :: cs)
        = if c = '_' then none else (joinGroups? c.isDigit cs).map (c :: ·) := by
      rw [joinGroups?]
      rintro d rest rfl
      exact absurd rfl h.1
    rw [hstep, if_neg (Ne.symm h.1), ih h.2, Option.map_some]

/-! ## The parts of a number -/

/-- Digits are split off from what does not begin with one. -/
theorem span_digits (hds : ∀ d ∈ ds, d.isDigit = true)
    (hrest : ∀ d ∈ rest.head?, d.isDigit = false) :
    (ds ++ rest).takeWhile Char.isDigit = ds ∧ (ds ++ rest).dropWhile Char.isDigit = rest := by
  rw [List.takeWhile_append_of_pos hds, List.dropWhile_append_of_pos hds]
  cases rest with
  | nil => exact ⟨List.append_nil ds, rfl⟩
  | cons d rest =>
    have hd : ¬ d.isDigit = true := by rw [hrest d rfl]; decide
    rw [List.takeWhile_cons_of_neg hd, List.dropWhile_cons_of_neg hd, List.append_nil]
    exact ⟨rfl, rfl⟩

/-- Digits do not begin with a sign. -/
theorem isSign_head? (hds : ∀ d ∈ ds, d.isDigit = true) : ∀ d ∈ ds.head?, isSign d = false := by
  intro d hd
  have hdigit := hds d (List.mem_of_mem_head? hd)
  rw [isSign, decide_eq_false_iff_not]
  intro hsign
  simp only [List.mem_cons, List.not_mem_nil, or_false] at hsign
  rcases hsign with rfl | rfl <;> exact absurd hdigit (by decide)

theorem sign_append {sign : List Char} (hsign : sign = [] ∨ ∃ c, isSign c = true ∧ sign = [c])
    (hrest : ∀ d ∈ rest.head?, isSign d = false) :
    Literal.sign (sign ++ rest) = (decide (sign = ['-']), rest) := by
  rcases hsign with rfl | ⟨c, hc, rfl⟩
  · have hhead (d : Char) (hd : isSign d = true) (more : List Char) : rest ≠ d :: more := by
      rintro rfl
      rw [hrest d rfl] at hd
      cases hd
    rw [List.nil_append, Literal.sign]
    · rfl
    · exact hhead '-' rfl
    · exact hhead '+' rfl
  · simp only [isSign, List.mem_cons, List.not_mem_nil, or_false, decide_eq_true_eq] at hc
    rcases hc with rfl | rfl <;> rfl

/-- A signed exponent is read, and so is none. -/
theorem exists_exponent {exponent : List Char} (h : exponent = [] ∨ ∃ c ds, isSign c = true ∧
      ds ≠ [] ∧ (∀ d ∈ ds, d.isDigit = true) ∧ exponent = 'e' :: c :: ds) :
    ∃ k, exponent? exponent = some k := by
  rcases h with rfl | ⟨c, ds, hc, hne, hds, rfl⟩
  · exact ⟨0, rfl⟩
  · have hsign := sign_append (.inr ⟨c, hc, rfl⟩) (isSign_head? hds)
    have hdigits : (ds.isEmpty || !ds.all Char.isDigit) = false := by
      rw [Bool.or_eq_false_iff, List.isEmpty_eq_false_iff, Bool.not_eq_false', List.all_eq_true]
      exact ⟨hne, hds⟩
    rw [List.singleton_append] at hsign
    rw [exponent?, if_pos (.inl rfl), hsign]
    simp [hdigits]

/-- Digits with a fraction and an exponent behind them are read if the exponent is. -/
theorem decimal?_append (negative : Bool) {digits fraction exponent : List Char}
    (hne : digits ≠ []) (hdigits : ∀ d ∈ digits, d.isDigit = true)
    (hfraction : fraction = [] ∨ ∃ ds, (∀ d ∈ ds, d.isDigit = true) ∧ fraction = '.' :: ds)
    (hexponent : ∀ d ∈ exponent.head?, d = 'e') :
    ∃ decimals, decimal? negative (digits ++ (fraction ++ exponent))
      = (exponent? exponent).map fun k =>
          ofDecimal negative (digits ++ decimals) (k - decimals.length) := by
  rcases hfraction with rfl | ⟨ds, hds, rfl⟩
  · obtain ⟨htake, hdrop⟩ := span_digits hdigits fun d hd => hexponent d hd ▸ rfl
    refine ⟨[], ?_⟩
    rw [List.nil_append, decimal?, htake, hdrop]
    cases exponent with
    | nil => simp [hne]
    | cons d rest =>
      obtain rfl := hexponent d rfl
      simp [hne]
  · have hpoint : ∀ d ∈ ('.' :: (ds ++ exponent)).head?, d.isDigit = false := by
      rintro d ⟨⟩
      rfl
    obtain ⟨htake, hdrop⟩ := span_digits hdigits hpoint
    obtain ⟨htake', hdrop'⟩ := span_digits hds fun d hd => hexponent d hd ▸ rfl
    refine ⟨ds, ?_⟩
    rw [List.cons_append, decimal?, htake, hdrop]
    simp [htake', hdrop', hne]

/-! ## Numbers -/

/-- Reading a text without blanks and underscores. -/
theorem read?_eq (hblank : ∀ c ∈ cs, Text.isBlank c = false) (hline : '_' ∉ cs.map plainChar) :
    read? (String.ofList cs)
      = (word? (sign (cs.map plainChar)).1 (sign (cs.map plainChar)).2 <|>
          decimal? (sign (cs.map plainChar)).1 (sign (cs.map plainChar)).2) := by
  have houter : ∀ c ∈ cs, isOuterBlank c = false := fun c hc => by
    rw [isOuterBlank, hblank c hc, Bool.false_and]
  rw [read?, String.toList_ofList, Text.trimChars_eq_self houter]
  simp only [Option.bind_eq_bind, joinGroups?_eq_self hline, Option.bind_some]

section

variable (n : Numeral)

theorem map_sign : n.sign.map plainChar = n.sign := by
  rcases n.sign_cases with hnil | ⟨c, hc, heq⟩
  · rw [hnil, List.map_nil]
  · rw [heq, List.map_singleton, plainChar_of_isSign hc]

theorem map_fraction : n.fraction.map plainChar = [] ∨
    ∃ ds, (∀ d ∈ ds, d.isDigit = true) ∧ n.fraction.map plainChar = '.' :: ds := by
  rcases n.fraction_cases with hnil | ⟨ds, hds, heq⟩
  · exact .inl (by rw [hnil, List.map_nil])
  · exact .inr ⟨_, isDigit_map hds, by rw [heq]; rfl⟩

theorem map_exponent : n.exponent.map plainChar = [] ∨ ∃ c ds, isSign c = true ∧ ds ≠ [] ∧
    (∀ d ∈ ds, d.isDigit = true) ∧ n.exponent.map plainChar = 'e' :: c :: ds := by
  rcases n.exponent_cases with hnil | ⟨c, ds, hc, hne, hds, heq⟩
  · exact .inl (by rw [hnil, List.map_nil])
  · refine .inr ⟨c, _, hc, by simpa using hne, isDigit_map hds, ?_⟩
    rw [heq, List.map_cons, List.map_cons, plainChar_of_isSign hc]
    rfl

theorem underscore_not_mem : '_' ∉ n.chars.map plainChar := by
  intro hmem
  obtain ⟨c, hc, hplain⟩ := List.mem_map.1 hmem
  rcases n.cases_of_mem hc with h | h | rfl | rfl
  · have hdigit := plainChar_of_isDigit h
    rw [hplain] at hdigit
    exact absurd hdigit (by decide)
  · rw [plainChar_of_isSign h] at hplain
    subst hplain
    exact absurd h (by decide)
  · exact absurd hplain (by decide)
  · exact absurd hplain (by decide)

/-- **Every number has a value**, whatever the script of its digits is. -/
theorem read?_numeral : ∃ value, read? (String.ofList n.chars) = some value := by
  have hdigits := isDigit_map n.isDigit_digits
  have hne : n.digits.map plainChar ≠ [] := by simpa using n.digits_ne_nil
  have hexponent : ∀ d ∈ (n.exponent.map plainChar).head?, d = 'e' := by
    rcases map_exponent n with hnil | ⟨c, ds, -, -, -, heq⟩
    · rw [hnil]
      nofun
    · rw [heq]
      rintro d ⟨⟩
      rfl
  let body := n.digits.map plainChar ++ (n.fraction.map plainChar ++ n.exponent.map plainChar)
  have hstart : ∀ d ∈ body.head?, isSign d = false := by
    rw [List.head?_append_of_ne_nil _ hne]
    exact isSign_head? hdigits
  have hplain : n.chars.map plainChar = n.sign ++ body := by
    simp only [Numeral.chars, List.map_append, map_sign, body]
  obtain ⟨k, hk⟩ := exists_exponent (map_exponent n)
  obtain ⟨decimals, hdecimal⟩ := decimal?_append (decide (n.sign = ['-'])) hne hdigits
    (map_fraction n) hexponent
  rw [read?_eq n.isBlank_chars (underscore_not_mem n), hplain, sign_append n.sign_cases hstart]
  simp only [body, hdecimal, hk, Option.map_some]
  cases word? (decide (n.sign = ['-'])) body with
  | none => exact ⟨_, rfl⟩
  | some value => exact ⟨value, rfl⟩

end

end Polish.Literal
