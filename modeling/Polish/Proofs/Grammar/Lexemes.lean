import Polish.Grammar.Arithmetic
import Polish.Proofs.Pattern.Symbols
import Polish.Proofs.Text.Classes

/-!
# The lexemes of the arithmetic grammar

What the patterns of the arithmetic grammar take.  For numbers and names there are two statements
each: whatever a pattern takes is such a lexeme (`exists_numeral_of_run`, `exists_name_of_run`), and
it takes the whole of one, if what follows cannot belong to it (`run_number`, `run_name`).  A name
is a call or not by what follows it: `run_callName` and `run_callName_eq_none`.

## How the proof goes

A pattern is run with what is to be done with the rest, so that an optional part can be given back
if the rest does not succeed.  The statements therefore have a continuation in them.  In one
direction nothing is known about it, and the parts of a lexeme are taken off the text one after
another (`exists_sign_of_run`, …).  In the other direction it is known to succeed, and then it has
to be shown of each repetition that it does not stop too early.  What the next part begins with is
not what the repetition takes, and this is where `EndsNumber` comes from: the characters with which
a number might go on.
-/

set_option autoImplicit false

namespace Polish.Arithmetic

open Regex
open Text (isBlank isDigit isWord isCased)

variable {c : Char} {s t rest : List Char} {k : Goal} {u : List Char}

/-! ## Numbers -/

/-- A sign of a number. -/
def isSign (c : Char) : Bool := decide (c ∈ ['-', '+'])

/-- A number in its parts. -/
structure Numeral where
  sign : List Char
  digits : List Char
  fraction : List Char
  exponent : List Char
  sign_cases : sign = [] ∨ ∃ c, isSign c = true ∧ sign = [c]
  digits_ne_nil : digits ≠ []
  isDigit_digits : ∀ d ∈ digits, isDigit d = true
  fraction_cases : fraction = [] ∨
    ∃ ds, (∀ d ∈ ds, isDigit d = true) ∧ fraction = '.' :: ds
  exponent_cases : exponent = [] ∨
    ∃ c ds, isSign c = true ∧ ds ≠ [] ∧ (∀ d ∈ ds, isDigit d = true) ∧ exponent = 'e' :: c :: ds

def Numeral.chars (n : Numeral) : List Char := n.sign ++ (n.digits ++ (n.fraction ++ n.exponent))

def fractionPattern : Regex := sequence [char '.', many (category .digit)]

def exponentPattern : Regex :=
  sequence [char 'e', oneOfChars ['-', '+'], atLeastOne (category .digit)]

theorem single_digit : Single false isDigit (category .digit) := single_category .digit

theorem single_sign : Single false isSign (oneOfChars ['-', '+']) := single_oneOfChars _

theorem run_number_eq : number.run false s k
    = (optional (oneOfChars ['-', '+'])).run false s fun t =>
        (atLeastOne (category .digit)).run false t fun t =>
          (optional fractionPattern).run false t fun t =>
            (optional exponentPattern).run false t k := rfl

theorem run_fractionPattern : fractionPattern.run false s k
    = (char '.').run false s fun t => (many (category .digit)).run false t k := rfl

theorem run_exponentPattern : exponentPattern.run false s k
    = (char 'e').run false s fun t => (oneOfChars ['-', '+']).run false t fun t =>
        (atLeastOne (category .digit)).run false t k := rfl

theorem isSign_of_isDigit (h : isDigit c = true) : isSign c = false := by
  rw [isSign, decide_eq_false_iff_not]
  rintro hc
  simp only [List.mem_cons, List.not_mem_nil, or_false] at hc
  rcases hc with rfl | rfl
  · exact absurd h (by decide)
  · exact absurd h (by decide)

/-- The character cannot go on with a number. -/
structure EndsNumber (c : Char) : Prop where
  isDigit : isDigit c = false
  ne_point : c ≠ '.'
  ne_e : c ≠ 'e'

/-- A number is taken as a whole if nothing behind it can belong to it. -/
theorem run_number (n : Numeral) (hrest : ∀ c ∈ rest.head?, EndsNumber c) (hk : k rest = some u) :
    number.run false (n.chars ++ rest) k = some u := by
  have hexponent : (optional exponentPattern).run false (n.exponent ++ rest) k = some u := by
    rcases n.exponent_cases with hnil | ⟨c, ds, hc, hne, hds, heq⟩
    · rw [hnil, List.nil_append, run_optional_of_none, hk]
      exact run_char_eq_none fun c hc => (hrest c hc).ne_e
    · refine run_optional_of_some ?_
      rw [heq, run_exponentPattern, List.cons_append, run_char_cons, List.cons_append,
        single_sign.2, if_pos hc]
      exact single_digit.run_atLeastOne_append hne hds (fun c hc => (hrest c hc).isDigit) hk
  have hexponentHead : ∀ c ∈ (n.exponent ++ rest).head?, isDigit c = false ∧ c ≠ '.' := by
    rcases n.exponent_cases with hnil | ⟨c, ds, -, -, -, heq⟩
    · rw [hnil, List.nil_append]
      exact fun c hc => ⟨(hrest c hc).isDigit, (hrest c hc).ne_point⟩
    · rw [heq]
      rintro c ⟨⟩
      decide
  have hfraction : (optional fractionPattern).run false (n.fraction ++ (n.exponent ++ rest))
      (fun t => (optional exponentPattern).run false t k) = some u := by
    rcases n.fraction_cases with hnil | ⟨ds, hds, heq⟩
    · rw [hnil, List.nil_append, run_optional_of_none, hexponent]
      exact run_char_eq_none fun c hc => (hexponentHead c hc).2
    · refine run_optional_of_some ?_
      rw [heq, run_fractionPattern, List.cons_append, run_char_cons]
      exact single_digit.run_many_append hds (fun c hc => (hexponentHead c hc).1) hexponent
  have hfractionHead : ∀ c ∈ (n.fraction ++ (n.exponent ++ rest)).head?, isDigit c = false := by
    rcases n.fraction_cases with hnil | ⟨ds, -, heq⟩
    · rw [hnil, List.nil_append]
      exact fun c hc => (hexponentHead c hc).1
    · rw [heq]
      rintro c ⟨⟩
      decide
  have hdigits : (atLeastOne (category .digit)).run false
      (n.digits ++ (n.fraction ++ (n.exponent ++ rest))) (fun t =>
        (optional fractionPattern).run false t fun t =>
          (optional exponentPattern).run false t k) = some u :=
    single_digit.run_atLeastOne_append n.digits_ne_nil n.isDigit_digits hfractionHead hfraction
  rw [run_number_eq, Numeral.chars, List.append_assoc, List.append_assoc, List.append_assoc]
  -- Without a sign, its pattern is tried at the first digit and fails.
  rcases n.sign_cases with hnil | ⟨c, hc, heq⟩
  · rw [hnil, List.nil_append, run_optional_of_none, hdigits]
    obtain ⟨d, ds, heq⟩ := List.exists_cons_of_ne_nil n.digits_ne_nil
    rw [heq, List.cons_append]
    refine single_sign.run_eq_none fun c hc => isSign_of_isDigit (n.isDigit_digits c ?_)
    obtain rfl := Option.some.inj hc
    rw [heq]
    exact List.mem_cons_self
  · refine run_optional_of_some ?_
    rw [heq, List.singleton_append, single_sign.2, if_pos hc, hdigits]

theorem exists_exponent_of_run (h : (optional exponentPattern).run false s k = some u) :
    ∃ exponent rest, s = exponent ++ rest ∧ (exponent = [] ∨ ∃ c ds, isSign c = true ∧ ds ≠ [] ∧
      (∀ d ∈ ds, isDigit d = true) ∧ exponent = 'e' :: c :: ds) ∧ k rest = some u := by
  rw [run_optional, Option.or_eq_some_iff] at h
  rcases h with h | ⟨-, h⟩
  · rw [run_exponentPattern] at h
    obtain ⟨e, t, rfl, he, h⟩ := (single_char 'e').run_eq_some h
    obtain ⟨c, t, rfl, hc, h⟩ := single_sign.run_eq_some h
    obtain ⟨ds, rest, hne, rfl, hds, hk⟩ := single_digit.run_atLeastOne_eq_some h
    obtain rfl := beq_iff_eq.1 he
    exact ⟨'e' :: c :: ds, rest, rfl, .inr ⟨c, ds, hc, hne, hds, rfl⟩, hk⟩
  · exact ⟨[], s, rfl, .inl rfl, h⟩

theorem exists_fraction_of_run (h : (optional fractionPattern).run false s k = some u) :
    ∃ fraction rest, s = fraction ++ rest ∧ (fraction = [] ∨
      ∃ ds, (∀ d ∈ ds, isDigit d = true) ∧ fraction = '.' :: ds) ∧ k rest = some u := by
  rw [run_optional, Option.or_eq_some_iff] at h
  rcases h with h | ⟨-, h⟩
  · rw [run_fractionPattern] at h
    obtain ⟨e, t, rfl, he, h⟩ := (single_char '.').run_eq_some h
    obtain ⟨ds, rest, rfl, hds, hk⟩ := single_digit.run_many_eq_some h
    obtain rfl := beq_iff_eq.1 he
    exact ⟨'.' :: ds, rest, rfl, .inr ⟨ds, hds, rfl⟩, hk⟩
  · exact ⟨[], s, rfl, .inl rfl, h⟩

theorem exists_sign_of_run (h : (optional (oneOfChars ['-', '+'])).run false s k = some u) :
    ∃ sign rest, s = sign ++ rest ∧ (sign = [] ∨ ∃ c, isSign c = true ∧ sign = [c]) ∧
      k rest = some u := by
  rw [run_optional, Option.or_eq_some_iff] at h
  rcases h with h | ⟨-, h⟩
  · obtain ⟨c, t, rfl, hc, hk⟩ := single_sign.run_eq_some h
    exact ⟨[c], t, rfl, .inr ⟨c, hc, rfl⟩, hk⟩
  · exact ⟨[], s, rfl, .inl rfl, h⟩

theorem isBlank_of_isSign (h : isSign c = true) : isBlank c = false := by
  simp only [isSign, List.mem_cons, List.not_mem_nil, or_false, decide_eq_true_eq] at h
  rcases h with rfl | rfl <;> decide

/-- A number is made of digits, signs, a point and the letter of its exponent. -/
theorem Numeral.cases_of_mem (n : Numeral) (h : c ∈ n.chars) :
    isDigit c = true ∨ isSign c = true ∨ c = '.' ∨ c = 'e' := by
  simp only [chars, List.mem_append] at h
  rcases h with h | h | h | h
  · rcases n.sign_cases with hnil | ⟨d, hd, heq⟩
    · simp [hnil] at h
    · rw [heq, List.mem_singleton] at h
      exact .inr (.inl (h ▸ hd))
  · exact .inl (n.isDigit_digits c h)
  · rcases n.fraction_cases with hnil | ⟨ds, hds, heq⟩
    · simp [hnil] at h
    · rw [heq, List.mem_cons] at h
      rcases h with rfl | h
      · exact .inr (.inr (.inl rfl))
      · exact .inl (hds c h)
  · rcases n.exponent_cases with hnil | ⟨d, ds, hd, -, hds, heq⟩
    · simp [hnil] at h
    · rw [heq, List.mem_cons, List.mem_cons] at h
      rcases h with rfl | rfl | h
      · exact .inr (.inr (.inr rfl))
      · exact .inr (.inl hd)
      · exact .inl (hds c h)

theorem Numeral.isBlank_chars (n : Numeral) : ∀ c ∈ n.chars, isBlank c = false := by
  intro c hc
  rcases n.cases_of_mem hc with h | h | rfl | rfl
  · exact Text.isBlank_of_isDigit h
  · exact isBlank_of_isSign h
  · decide
  · decide

/-- A number begins with a sign or a digit. -/
theorem Numeral.exists_cons (n : Numeral) :
    ∃ c t, n.chars = c :: t ∧ (isSign c = true ∨ isDigit c = true) := by
  obtain ⟨d, ds, hdigits⟩ := List.exists_cons_of_ne_nil n.digits_ne_nil
  rcases n.sign_cases with hnil | ⟨c, hc, heq⟩
  · refine ⟨d, ds ++ (n.fraction ++ n.exponent), ?_, .inr (n.isDigit_digits d ?_)⟩
    · rw [chars, hnil, hdigits]
      rfl
    · rw [hdigits]
      exact List.mem_cons_self
  · refine ⟨c, n.digits ++ (n.fraction ++ n.exponent), ?_, .inl hc⟩
    rw [chars, heq]
    rfl

/-- Whatever the pattern of numbers takes is a number. -/
theorem exists_numeral_of_run (h : number.run false s k = some u) :
    ∃ (n : Numeral) (rest : List Char), s = n.chars ++ rest ∧ k rest = some u := by
  rw [run_number_eq] at h
  obtain ⟨sign, s, rfl, hsign, h⟩ := exists_sign_of_run h
  obtain ⟨digits, s, hne, rfl, hdigits, h⟩ := single_digit.run_atLeastOne_eq_some h
  obtain ⟨fraction, s, rfl, hfraction, h⟩ := exists_fraction_of_run h
  obtain ⟨exponent, rest, rfl, hexponent, hk⟩ := exists_exponent_of_run h
  refine ⟨⟨sign, digits, fraction, exponent, hsign, hne, hdigits, hfraction, hexponent⟩, rest, ?_,
    hk⟩
  simp only [Numeral.chars, List.append_assoc]

/-! ## Names -/

/-- A letter that a name may begin with, in either case. -/
def isLetter (c : Char) : Bool :=
  (Text.variants c).any fun x => 'a'.toNat ≤ x.toNat && x.toNat ≤ 'z'.toNat

/-- A character that a name may go on with. -/
def isNameChar (c : Char) : Bool := (Text.variants c).any isWord

theorem single_letter : Single true isLetter (.oneOf false [.range 'a' 'z']) :=
  single_oneOf fun c => by simp [ClassItem.accepts, ClassItem.holds, isLetter]

theorem single_nameChar : Single true isNameChar (category .word) :=
  single_oneOf fun c => by simp [ClassItem.accepts, ClassItem.holds, Category.holds, isNameChar]

/-- Blanks and brackets have one spelling only, so they can be told apart from names and found
behind them in a pattern that ignores letter case. -/
theorem single_blank_ignoring : Single true isBlank (category .blank) :=
  single_oneOf fun c => by
    have hsame := Text.any_variants isBlank (fun _ => Text.uncased_of_isBlank) c
    simpa [ClassItem.accepts, ClassItem.holds, Category.holds] using hsame

theorem single_open_ignoring : Single true ('(' == ·) (char '(') :=
  single_oneOf fun c => by
    have hsame := Text.any_variants ('(' == ·) (fun x hx => beq_iff_eq.1 hx ▸ by decide) c
    simpa [ClassItem.accepts, ClassItem.holds] using hsame

theorem isLetter_of_uncased (h : isCased c = false) : isLetter c = false := by
  rw [isLetter, Text.any_variants_of_uncased _ h, Bool.eq_false_iff]
  intro hletter
  have hcased : isCased c = true := List.any_eq_true.2 ⟨(0x61, 0x7A), by decide, hletter⟩
  rw [h] at hcased
  cases hcased

theorem isNameChar_of_isBlank (h : isBlank c = true) : isNameChar c = false := by
  rw [isNameChar, Text.any_variants_of_uncased _ (Text.uncased_of_isBlank h),
    Text.isWord_of_isBlank h]

theorem isBlank_of_isLetter (h : isLetter c = true) : isBlank c = false := by
  rw [Bool.eq_false_iff]
  intro hblank
  rw [isLetter_of_uncased (Text.uncased_of_isBlank hblank)] at h
  cases h

theorem isBlank_of_isNameChar (h : isNameChar c = true) : isBlank c = false := by
  rw [Bool.eq_false_iff]
  intro hblank
  rw [isNameChar_of_isBlank hblank] at h
  cases h

/-- A name with its first letter. -/
structure Name where
  first : Char
  others : List Char
  isLetter_first : isLetter first = true
  isNameChar_others : ∀ c ∈ others, isNameChar c = true

def Name.chars (n : Name) : List Char := n.first :: n.others

theorem Name.isBlank_chars (n : Name) : ∀ c ∈ n.chars, isBlank c = false := by
  intro c hc
  rcases List.mem_cons.1 hc with rfl | hc
  · exact isBlank_of_isLetter n.isLetter_first
  · exact isBlank_of_isNameChar (n.isNameChar_others c hc)

theorem run_name_eq : name.run true s k
    = (Regex.oneOf false [.range 'a' 'z']).run true s fun t =>
        (many (category .word)).run true t k := rfl

theorem Name.first_ne (n : Name) (hc : isLetter c = false) : n.first ≠ c := by
  have hfirst := n.isLetter_first
  rintro rfl
  rw [hc] at hfirst
  cases hfirst

/-- A name does not begin like a number. -/
theorem Name.isSign_first (n : Name) : isSign n.first = false := by
  simp only [isSign, List.mem_cons, List.not_mem_nil, or_false, decide_eq_false_iff_not, not_or]
  exact ⟨n.first_ne (by decide), n.first_ne (by decide)⟩

theorem Name.isDigit_first (n : Name) : isDigit n.first = false := by
  rw [Bool.eq_false_iff]
  exact fun hdigit => n.first_ne (isLetter_of_uncased (Text.uncased_of_isDigit hdigit)) rfl

/-- A name is taken as a whole if nothing behind it can belong to it. -/
theorem run_name (n : Name) (hrest : ∀ c ∈ rest.head?, isNameChar c = false)
    (hk : k rest = some u) : name.run true (n.chars ++ rest) k = some u := by
  rw [run_name_eq, Name.chars, List.cons_append, single_letter.2, if_pos n.isLetter_first]
  exact single_nameChar.run_many_append n.isNameChar_others hrest hk

/-- Whatever the pattern of names takes is a name. -/
theorem exists_name_of_run (h : name.run true s k = some u) :
    ∃ (n : Name) (rest : List Char), s = n.chars ++ rest ∧ k rest = some u := by
  rw [run_name_eq] at h
  obtain ⟨c, t, rfl, hc, h⟩ := single_letter.run_eq_some h
  obtain ⟨others, rest, rfl, hothers, hk⟩ := single_nameChar.run_many_eq_some h
  exact ⟨⟨c, others, hc, hothers⟩, rest, rfl, hk⟩

/-! ### Names before brackets -/

/-- An opening bracket comes next, perhaps after blanks. -/
def BracketAhead (t : List Char) : Prop :=
  ∃ blanks rest, t = blanks ++ '(' :: rest ∧ ∀ c ∈ blanks, isBlank c = true

theorem bracketAhead_cons {t : List Char} :
    BracketAhead (c :: t) ↔ c = '(' ∨ isBlank c = true ∧ BracketAhead t := by
  constructor
  · rintro ⟨blanks, rest, heq, hblanks⟩
    cases blanks with
    | nil => exact .inl (List.cons.inj heq).1
    | cons b blanks =>
      obtain ⟨rfl, rfl⟩ := List.cons.inj heq
      exact .inr ⟨hblanks c List.mem_cons_self, blanks, rest, rfl,
        fun d hd => hblanks d (List.mem_cons_of_mem c hd)⟩
  · rintro (rfl | ⟨hc, blanks, rest, rfl, hblanks⟩)
    · exact ⟨[], t, rfl, nofun⟩
    · refine ⟨c :: blanks, rest, rfl, fun d hd => ?_⟩
      rcases List.mem_cons.1 hd with rfl | hd
      · exact hc
      · exact hblanks d hd

theorem not_bracketAhead_nil : ¬ BracketAhead [] := by
  rintro ⟨blanks, rest, heq, -⟩
  simp at heq

/-- The pattern behind the name of a call looks for its bracket. -/
theorem isSome_run_bracketAhead :
    ((sequence [many (category .blank), char '(']).run true t some).isSome = true ↔
      BracketAhead t := by
  rw [run_sequence_cons]
  constructor
  · intro h
    obtain ⟨u, hu⟩ := Option.isSome_iff_exists.1 h
    obtain ⟨blanks, rest, rfl, hblanks, hu⟩ := single_blank_ignoring.run_many_eq_some hu
    obtain ⟨c, rest, rfl, hc, -⟩ := single_open_ignoring.run_eq_some hu
    exact ⟨blanks, rest, by rw [beq_iff_eq.1 hc], hblanks⟩
  · rintro ⟨blanks, rest, rfl, hblanks⟩
    have hopen : (sequence [char '(']).run true ('(' :: rest) some = some rest := by
      rw [Regex.sequence, single_open_ignoring.2, if_pos (by decide)]
    have hrun : (many (category .blank)).run true (blanks ++ '(' :: rest)
        (fun t => (sequence [char '(']).run true t some) = some rest :=
      single_blank_ignoring.run_many_append hblanks (by rintro c ⟨⟩; decide) hopen
    rw [hrun]
    rfl

theorem run_callName_eq : callName.run true s k
    = (Regex.oneOf false [.range 'a' 'z']).run true s fun t =>
        (many (category .word)).run true t fun t =>
          if ((sequence [many (category .blank), char '(']).run true t some).isSome
          then k t else none := rfl

/-- A name before a bracket is a call. -/
theorem run_callName (n : Name) (hrest : ∀ c ∈ rest.head?, isNameChar c = false)
    (hahead : BracketAhead rest) (hk : k rest = some u) :
    callName.run true (n.chars ++ rest) k = some u := by
  rw [run_callName_eq, Name.chars, List.cons_append, single_letter.2, if_pos n.isLetter_first]
  refine single_nameChar.run_many_append n.isNameChar_others hrest ?_
  rw [if_pos (isSome_run_bracketAhead.2 hahead), hk]

/-- A name without a bracket behind it is no call, and no part of it is one. -/
theorem run_callName_eq_none (n : Name) (hrest : ∀ c ∈ rest.head?, isNameChar c = false)
    (hahead : ¬ BracketAhead rest) : callName.run true (n.chars ++ rest) k = none := by
  rw [run_callName_eq, Name.chars, List.cons_append, single_letter.2, if_pos n.isLetter_first,
    Option.eq_none_iff_forall_ne_some]
  intro u hu
  obtain ⟨taken, left, heq, htaken, hleft⟩ := single_nameChar.run_many_eq_some hu
  obtain ⟨hleft, -⟩ := Option.ite_none_right_eq_some.1 hleft
  have hleft := isSome_run_bracketAhead.1 hleft
  rcases List.append_eq_append_iff.1 heq with ⟨more, rfl, rfl⟩ | ⟨more, hmore, rfl⟩
  · cases more with
    | nil => exact hahead hleft
    | cons c more =>
      have hc := hrest c rfl
      rw [htaken c (by simp)] at hc
      cases hc
  · cases more with
    | nil => exact hahead hleft
    | cons c more =>
      -- What is left begins inside the name.
      have hc : isNameChar c = true := n.isNameChar_others c (by simp [hmore])
      rcases bracketAhead_cons.1 hleft with rfl | ⟨hblank, -⟩
      · exact absurd hc (by decide +kernel)
      · rw [isNameChar_of_isBlank hblank] at hc
        cases hc

/-! ## Brackets, separators and blanks -/

theorem single_blank : Single false isBlank (category .blank) := single_category .blank

theorem run_bracket_eq : (bracket c).run false s k
    = (many (category .blank)).run false s fun t => (char c).run false t fun t =>
        (many (category .blank)).run false t k := rfl

/-- A bracket is taken with all blanks around it. -/
theorem run_bracket {lead trail : List Char} (hlead : ∀ d ∈ lead, isBlank d = true)
    (htrail : ∀ d ∈ trail, isBlank d = true) (hc : isBlank c = false)
    (hrest : ∀ d ∈ rest.head?, isBlank d = false) (hk : k rest = some u) :
    (bracket c).run false (lead ++ c :: (trail ++ rest)) k = some u := by
  rw [run_bracket_eq]
  refine single_blank.run_many_append hlead (by rintro d ⟨⟩; exact hc) ?_
  rw [run_char_cons]
  exact single_blank.run_many_append htrail hrest hk

theorem run_bracket_eq_none {d : Char} (hd : isBlank d = false) (hne : d ≠ c) :
    (bracket c).run false (d :: t) k = none := by
  rw [run_bracket_eq, single_blank.run_many_cons, if_neg (by simp [hd])]
  exact run_char_eq_none (by rintro x ⟨⟩; exact hne)

theorem rest?_blanks : (Pattern.mk blanks false).rest? t = some (t.dropWhile isBlank) :=
  single_blank.run_many_some

/-- A bracket is taken with all the blanks on both its sides. -/
theorem rest?_bracket (hc : isBlank c = false) :
    (Pattern.mk (bracket c) false).rest? t = some u ↔
      ∃ v, t.dropWhile isBlank = c :: v ∧ u = v.dropWhile isBlank := by
  have hhead (x : Char) (v : List Char) :
      ((Regex.char c).run false (x :: v) fun t =>
          (Regex.many (.category .blank)).run false t some)
        = if c = x then some (v.dropWhile isBlank) else none := by
    rw [(Regex.single_char c).2, single_blank.run_many_some]
    simp only [beq_iff_eq]
  rw [Pattern.rest?, run_bracket_eq]
  induction t with
  | nil =>
    rw [single_blank.run_many_nil, (Regex.single_char c).1]
    simp
  | cons x v ih =>
    rw [single_blank.run_many_cons, hhead]
    by_cases hx : isBlank x = true
    · have hne : c ≠ x := by
        rintro rfl
        rw [hx] at hc
        cases hc
      rw [if_pos hx, if_neg hne, Option.or_none, List.dropWhile_cons_of_pos hx]
      exact ih
    · rw [if_neg hx, List.dropWhile_cons_of_neg hx]
      by_cases heq : c = x
      · subst heq
        simp [eq_comm]
      · simp [heq, Ne.symm heq]

/-- A number does not begin like a name or a bracket. -/
theorem run_number_eq_none (hsign : isSign c = false) (hdigit : isDigit c = false) :
    number.run false (c :: t) k = none := by
  rw [run_number_eq, run_optional_of_none]
  · rw [single_digit.run_atLeastOne, if_neg (by simp [hdigit])]
  · exact single_sign.run_eq_none (by rintro x ⟨⟩; exact hsign)

/-! ## Operators -/

/-- The symbols of the arithmetic grammar. -/
def operatorSymbols : List String :=
  ["<<", ">>", "-", "+", "*", "/", "%", "&", "|", "×", "÷", "^"]

theorem reads_operator : (Pattern.mk operator false).Reads operatorSymbols where
  ignoreCase := rfl
  chooses := (Regex.chooses_literal "<<").alt
    ((Regex.chooses_literal ">>").alt (Regex.chooses_oneOfChars _))
  sorted := by decide

/-- An operator is taken as a whole, whatever comes behind it. -/
theorem rest?_operator {symbol : String} (h : symbol ∈ operatorSymbols) (rest : List Char) :
    (Pattern.mk operator false).rest? (symbol.toList ++ rest) = some rest := by
  simp only [operatorSymbols, List.mem_cons, List.not_mem_nil, or_false] at h
  rcases h with rfl | rfl | rfl | rfl | rfl | rfl | rfl | rfl | rfl | rfl | rfl | rfl <;> rfl

end Polish.Arithmetic
