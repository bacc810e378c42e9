import Polish.Text.Blank
import Polish.Text.Digit
import Polish.Text.LetterCase
import Polish.Text.Word

/-!
# Classes of characters are apart

Blanks, digits and word characters are tables of code points.  Here they are all read as ranges, so
that one lemma tells them apart: `inRanges_eq_false`.

A pattern that ignores letter case accepts a character for any of its spellings.  Spellings matter
for the letters in `casedRanges` only (`mem_variants_of_uncased`, `isCased_of_mem_variants`), and so
they do not make a blank or a bracket of anything else: `any_variants`.

## How the proof goes

There are more than a million characters, so nothing is decided character by character.  Two lists
of ranges are apart if each range of the one is apart from each of the other, which is decided for
the lists, and then no character can be in both.  The one exception is that the spellings of a
letter have spellings themselves, where all letters with several of them are gone through.
-/

set_option autoImplicit false

namespace Polish.Text

variable {c d : Char} {n : Nat} {xs ys : List (Nat × Nat)}

/-! ## Ranges -/

/-- Whether a code point lies in one of some inclusive ranges. -/
def inRanges (ranges : List (Nat × Nat)) (n : Nat) : Bool :=
  ranges.any fun range => range.1 ≤ n && n ≤ range.2

/-- Whether the ranges of two lists are all apart. -/
def apart (xs ys : List (Nat × Nat)) : Bool :=
  xs.all fun x => ys.all fun y => x.2.blt y.1 || y.2.blt x.1

/-- A code point in some ranges is in none that are apart from them. -/
theorem inRanges_eq_false (h : apart xs ys = true) (hn : inRanges xs n = true) :
    inRanges ys n = false := by
  obtain ⟨x, hx, hin⟩ := List.any_eq_true.1 hn
  rw [Bool.and_eq_true, decide_eq_true_eq, decide_eq_true_eq] at hin
  rw [inRanges, List.any_eq_false]
  intro y hy hout
  rw [Bool.and_eq_true, decide_eq_true_eq, decide_eq_true_eq] at hout
  have hxy := List.all_eq_true.1 (List.all_eq_true.1 h x hx) y hy
  rw [Bool.or_eq_true, Nat.blt_eq, Nat.blt_eq] at hxy
  omega

def blankRanges : List (Nat × Nat) := [
  (9, 13), (28, 32), (0x85, 0x85), (0xA0, 0xA0), (0x1680, 0x1680), (0x2000, 0x200A),
  (0x2028, 0x2028), (0x2029, 0x2029), (0x202F, 0x202F), (0x205F, 0x205F), (0x3000, 0x3000)]

def digitRanges : List (Nat × Nat) := zeros.map fun start => (start, start + 9)

theorem isBlank_eq_inRanges (c : Char) : isBlank c = inRanges blankRanges c.toNat := by
  rw [Bool.eq_iff_iff]
  simp only [isBlank, inRanges, blankRanges, List.any_cons, List.any_nil, Bool.or_eq_true,
    Bool.and_eq_true, decide_eq_true_eq, beq_iff_eq, Bool.or_false]
  omega

theorem isDigit_eq_inRanges (c : Char) : isDigit c = inRanges digitRanges c.toNat := by
  rw [Bool.eq_iff_iff, isDigit, digitValue?, List.findSome?_isSome_iff, inRanges, digitRanges,
    List.any_map, List.any_eq_true]
  refine exists_congr fun start => and_congr_right fun _ => ?_
  rw [Function.comp_apply, Bool.and_eq_true, decide_eq_true_eq, decide_eq_true_eq]
  split
  · next h => simp only [Option.isSome_some, true_iff]; omega
  · next h => simp only [Option.isSome_none, Bool.false_eq_true, false_iff]; omega

theorem isWord_eq_inRanges (c : Char) :
    isWord c = inRanges ((0x5F, 0x5F) :: wordRanges) c.toNat := by
  have hline : (c == '_') = (decide (0x5F ≤ c.toNat) && decide (c.toNat ≤ 0x5F)) := by
    rw [Bool.eq_iff_iff, beq_iff_eq, ← Char.toNat_inj, Bool.and_eq_true, decide_eq_true_eq,
      decide_eq_true_eq]
    have : '_'.toNat = 0x5F := rfl
    omega
  rw [isWord, inRanges, List.any_cons, hline]

theorem isBlank_of_isDigit (h : isDigit c = true) : isBlank c = false := by
  rw [isDigit_eq_inRanges] at h
  rw [isBlank_eq_inRanges]
  exact inRanges_eq_false (by decide +kernel) h

theorem isWord_of_isBlank (h : isBlank c = true) : isWord c = false := by
  rw [isBlank_eq_inRanges] at h
  rw [isWord_eq_inRanges]
  exact inRanges_eq_false (by decide +kernel) h

/-! ## Letter case -/

/-- The letters that have another spelling. -/
def casedRanges : List (Nat × Nat) := [
  (0x41, 0x5A), (0x61, 0x7A), (0xC9, 0xC9), (0xE9, 0xE9), (0x130, 0x131), (0x17F, 0x17F),
  (0x212A, 0x212A)]

def isCased (c : Char) : Bool := inRanges casedRanges c.toNat

/-- The code points of the letters that have another spelling. -/
def casedCodes : List Nat :=
  casedRanges.flatMap fun range => List.range' range.1 (range.2 + 1 - range.1)

theorem mem_casedCodes (h : isCased c = true) : c.toNat ∈ casedCodes := by
  obtain ⟨range, hrange, hin⟩ := List.any_eq_true.1 h
  rw [Bool.and_eq_true, decide_eq_true_eq, decide_eq_true_eq] at hin
  refine List.mem_flatMap.2 ⟨range, hrange, List.mem_range'_1.2 ?_⟩
  omega

/-- The spellings of a letter that has several have several themselves. -/
theorem isCased_of_mem_variants (hc : isCased c = true) (hd : d ∈ variants c) :
    isCased d = true := by
  have hall : (casedCodes.all fun n => (variants (Char.ofNat n)).all isCased) = true := by
    decide +kernel
  have hc' := List.all_eq_true.1 hall c.toNat (mem_casedCodes hc)
  rw [Char.ofNat_toNat] at hc'
  exact List.all_eq_true.1 hc' d hd

theorem toLower_of_uncased (hc : isCased c = false) : c.toLower = c := by
  refine dif_neg fun h => ?_
  have h₁ : 65 ≤ c.toNat := UInt32.le_iff_toNat_le.1 h.1
  have h₂ : c.toNat ≤ 90 := UInt32.le_iff_toNat_le.1 h.2
  have hin : isCased c = true := List.any_eq_true.2 ⟨(0x41, 0x5A), by decide, by simp; omega⟩
  rw [hc] at hin
  cases hin

theorem toUpper_of_uncased (hc : isCased c = false) : c.toUpper = c := by
  refine dif_neg fun h => ?_
  have h₁ : 97 ≤ c.toNat := UInt32.le_iff_toNat_le.1 h.1
  have h₂ : c.toNat ≤ 122 := UInt32.le_iff_toNat_le.1 h.2
  have hin : isCased c = true := List.any_eq_true.2 ⟨(0x61, 0x7A), by decide, by simp; omega⟩
  rw [hc] at hin
  cases hin

/-- A character that has no other spelling is its only one. -/
theorem mem_variants_of_uncased (hc : isCased c = false) : d ∈ variants c ↔ d = c := by
  have hne (x : Char) (hx : isCased x = true) : c ≠ x := by
    rintro rfl
    rw [hc] at hx
    cases hx
  have hfold : foldCase c = c := by
    rw [foldCase, if_neg (not_or.2 ⟨hne _ (by decide), hne _ (by decide)⟩),
      if_neg (hne _ (by decide)), if_neg (hne _ (by decide)), if_neg (hne _ (by decide)),
      toLower_of_uncased hc]
  simp only [variants, hfold, toUpper_of_uncased hc, hne 'i' (by decide), hne 's' (by decide),
    hne 'k' (by decide), hne '\u00e9' (by decide), if_false, List.append_nil, List.mem_cons,
    List.not_mem_nil, or_false, or_self]

/-- Whether some spelling of a character that has only one belongs to a class. -/
theorem any_variants_of_uncased (p : Char → Bool) (hc : isCased c = false) :
    (variants c).any p = p c := by
  rw [Bool.eq_iff_iff, List.any_eq_true]
  simp only [mem_variants_of_uncased hc, exists_eq_left]

/-- A class without letters of several spellings stays the same when letter case is ignored. -/
theorem any_variants (p : Char → Bool) (hp : ∀ x, p x = true → isCased x = false) (c : Char) :
    (variants c).any p = p c := by
  cases hc : isCased c with
  | false => exact any_variants_of_uncased p hc
  | true =>
    have houtside (d : Char) (hd : isCased d = true) : ¬ p d = true := by
      intro hpd
      rw [hp d hpd] at hd
      cases hd
    rw [Bool.eq_false_iff.2 (houtside c hc), List.any_eq_false]
    exact fun d hd => houtside d (isCased_of_mem_variants hc hd)

theorem uncased_of_isBlank (h : isBlank c = true) : isCased c = false := by
  rw [isBlank_eq_inRanges] at h
  exact inRanges_eq_false (by decide +kernel) h

theorem uncased_of_isDigit (h : isDigit c = true) : isCased c = false := by
  rw [isDigit_eq_inRanges] at h
  exact inRanges_eq_false (by decide +kernel) h

end Polish.Text
