import Mathlib.Data.List.TakeWhile
import Polish.Proofs.Grammar.Lexemes
import Polish.Proofs.Pattern.Spread

/-!
# Blanks between tokens

Blanks are put into a text, as many as one likes, but in no place that is inside a word.  The
arithmetic grammar takes blanks in three ways: its two states skip them, a bracket takes those on
both its sides, and the name of a call looks over them for its bracket.  So each pattern takes of
the changed text what it takes of the text, but for blanks.

* `Spacing` — the blanks that are put in, and `Spacing.behind`, what is left of the changed text
  when it has come to a character of the text;
* `Spacing.Echoes` — a pattern takes the same of both texts but for blanks;
* `Spacing.echoes_of_solid` and `Arithmetic.echoes_bracket` — all patterns of arithmetic do, those
  that take no blanks and those that take all blanks there are.

## How the proof goes

The two texts are compared from some offset on.  `Follows` is the relation that holds wherever a
scan may be, with blanks that may have been put in before the next character; `behind` is what it
comes to once those have been skipped.  A pattern that takes no blanks and whose answer does not
depend on blanks behind its match is `Solid`.  Those of numbers and names are such patterns because
of the way in which they are put together.  The name of a call is one for another reason: its look
at what comes behind is a look over blanks (`bracketAhead_spread`).
-/

set_option autoImplicit false

namespace Polish

open Text (isBlank)

/-! ## Putting in blanks -/

/-- Blanks that are to be put into a text. -/
structure Spacing where
  /-- What is put in before the character at an offset, or at the end. -/
  gap : Nat → List Char
  isBlank_gap : ∀ i, ∀ b ∈ gap i, isBlank b = true

namespace Spacing

variable (s : Spacing)

/-- The text whose first character stands at an offset, with the blanks put in. -/
def insert : Nat → List Char → List Char
  | i, [] => s.gap i
  | i, c :: cs => s.gap i ++ c :: insert (i + 1) cs

/-- The same without the blanks before the first character. -/
def behind : Nat → List Char → List Char
  | _, [] => []
  | i, c :: cs => c :: s.insert (i + 1) cs

/-- The text with the blanks put in. -/
def apply (source : String) : String := String.ofList (s.insert 0 source.toList)

/-- No blanks are put in between two characters that are not blank themselves. -/
def Whole (i : Nat) (w : List Char) : Prop :=
  ∀ xs c d ys, w = xs ++ c :: d :: ys → isBlank c = false → isBlank d = false →
    s.gap (i + xs.length + 1) = []

/-- What is left of the changed text belongs to what is left of the text, perhaps with blanks
before. -/
def Follows (i : Nat) (t t' : List Char) : Prop :=
  ∃ lead, (∀ b ∈ lead, isBlank b = true) ∧ t' = lead ++ s.behind i t

variable {s} {i : Nat} {t t' w u : List Char}

/-- A word is left whole if nothing is put in inside it. -/
theorem whole_of_gap (h : ∀ k, i < k → k < i + w.length → s.gap k = []) : s.Whole i w := by
  intro xs c d ys hw _ _
  refine h _ (by omega) ?_
  rw [hw, List.length_append, List.length_cons, List.length_cons]
  omega

theorem insert_eq (i : Nat) (t : List Char) : s.insert i t = s.gap i ++ s.behind i t := by
  cases t with
  | nil => exact (List.append_nil _).symm
  | cons c cs => rfl

theorem follows_behind : s.Follows i t (s.behind i t) := ⟨[], nofun, rfl⟩

theorem follows_insert : s.Follows i t (s.insert i t) :=
  ⟨s.gap i, s.isBlank_gap i, s.insert_eq i t⟩

/-- Blanks are put in and nothing else. -/
theorem spread_insert : Spread t (s.insert i t) := by
  induction t generalizing i with
  | nil => simpa [insert] using Spread.nil.append_blanks (s.isBlank_gap i)
  | cons c t ih => exact (Spread.keep c ih).append_blanks (s.isBlank_gap i)

theorem spread_behind : Spread t (s.behind i t) := by
  cases t with
  | nil => exact .nil
  | cons c t => exact .keep c spread_insert

/-- A word is left whole, and behind it there may be blanks. -/
theorem behind_append (hw : ∀ c ∈ w, isBlank c = false) (hwhole : s.Whole i w) :
    ∃ u', s.behind i (w ++ u) = w ++ u' ∧ s.Follows (i + w.length) u u' := by
  induction w generalizing i with
  | nil => exact ⟨_, rfl, follows_behind⟩
  | cons c w ih =>
    cases w with
    | nil => exact ⟨_, rfl, follows_insert⟩
    | cons d w =>
      have hgap : s.gap (i + 1) = [] :=
        hwhole [] c d w rfl (hw c (by simp)) (hw d (by simp))
      obtain ⟨u', hu', hfollows⟩ := @ih (i + 1) (fun e he => hw e (List.mem_cons_of_mem c he))
        fun xs e f ys heq he hf => by
          have := hwhole (c :: xs) e f ys (by rw [heq]; rfl) he hf
          rwa [List.length_cons, ← Nat.add_assoc, Nat.add_right_comm i] at this
      refine ⟨u', ?_, ?_⟩
      · rw [List.cons_append, behind, insert_eq, hgap, List.nil_append, hu']
        rfl
      · rwa [List.length_cons, Nat.add_comm _ 1, ← Nat.add_assoc]

/-- The blanks that a text begins with, and those put in there, are taken together. -/
theorem Follows.dropWhile (h : s.Follows i t t') :
    t'.dropWhile isBlank
      = s.behind (i + (t.takeWhile isBlank).length) (t.dropWhile isBlank) := by
  induction t generalizing i t' with
  | nil =>
    obtain ⟨lead, hlead, rfl⟩ := h
    rw [List.dropWhile_append_of_pos hlead]
    rfl
  | cons c t ih =>
    obtain ⟨lead, hlead, rfl⟩ := h
    by_cases hc : isBlank c = true
    · have hfollows : s.Follows (i + 1) t (lead ++ s.behind i (c :: t)) := by
        refine ⟨lead ++ c :: s.gap (i + 1), fun b hb => ?_, by rw [behind, insert_eq]; simp⟩
        simp only [List.mem_append, List.mem_cons] at hb
        rcases hb with hb | rfl | hb
        · exact hlead b hb
        · exact hc
        · exact s.isBlank_gap _ b hb
      rw [ih hfollows, List.takeWhile_cons_of_pos hc, List.dropWhile_cons_of_pos hc,
        List.length_cons, Nat.add_assoc, Nat.add_comm 1]
    · rw [List.dropWhile_append_of_pos hlead, behind, List.dropWhile_cons_of_neg hc,
        List.takeWhile_cons_of_neg hc, List.dropWhile_cons_of_neg hc]
      rfl

theorem length_behind_append :
    w.length + (s.behind (i + w.length) u).length ≤ (s.behind i (w ++ u)).length := by
  induction w generalizing i with
  | nil => simp
  | cons c w ih =>
    have := @ih (i + 1)
    rw [List.length_cons, ← Nat.add_assoc, Nat.add_right_comm i]
    rw [List.cons_append, behind, insert_eq, List.length_cons, List.length_append]
    omega

/-! ## What patterns take of both texts -/

/-- A pattern takes the same of what is left of both texts, but for blanks. -/
structure Echoes (s : Spacing) (p : Pattern) (i : Nat) (t t' : List Char) : Prop where
  fails : p.rest? t = none → p.rest? t' = none
  takes : ∀ {w u}, t = w ++ u → p.rest? t = some u → s.Whole i w →
    ∃ w' u', t' = w' ++ u' ∧ p.rest? t' = some u' ∧ w.length ≤ w'.length ∧
      Text.strip (String.ofList w') = Text.strip (String.ofList w) ∧
      s.Follows (i + w.length) u u'

/-- A pattern that takes no blanks takes the same word. -/
theorem echoes_of_solid {p : Pattern} (h : Regex.Solid p.ignoreCase p.regex) :
    s.Echoes p i t (s.behind i t) where
  fails hnone := Pattern.rest?_spread_eq_none h hnone spread_behind
  takes {w u} ht hu hwhole := by
    subst ht
    obtain ⟨xs, hxs, hsolid⟩ := Pattern.exists_of_rest? h hu
    obtain rfl := List.append_cancel_right hxs
    obtain ⟨u', hu', hfollows⟩ := behind_append hsolid hwhole
    refine ⟨w, u', hu', ?_, Nat.le_refl _, rfl, hfollows⟩
    rw [hu']
    refine Pattern.rest?_spread h hu ?_
    obtain ⟨lead, hlead, rfl⟩ := hfollows
    exact spread_behind.append_blanks hlead

/-- What has been taken has grown by the blanks that were put in. -/
theorem length_le_of_behind {w' : List Char} (h : s.Follows i (w ++ u) t')
    (ht' : t' = w' ++ s.behind (i + w.length) u) : w.length ≤ w'.length := by
  obtain ⟨lead, -, hlead⟩ := h
  have hlength := congrArg List.length (hlead.symm.trans ht')
  have hgrown := @length_behind_append s i w u
  rw [List.length_append, List.length_append] at hlength
  omega

end Spacing

namespace Arithmetic

variable {s : Spacing} {i : Nat} {c : Char} {t t' u : List Char}

/-- Without the blanks on both its sides, a bracket is one character. -/
theorem strip_bracket (hc : isBlank c = false) {xs ys : List Char}
    (hxs : ∀ b ∈ xs, isBlank b = true) (hys : ∀ b ∈ ys, isBlank b = true) :
    Text.strip (String.ofList (xs ++ c :: ys)) = String.singleton c := by
  have hys' : ∀ b ∈ ys.reverse, isBlank b = true := by simpa using hys
  have hcons (zs : List Char) : (c :: zs).dropWhile isBlank = c :: zs :=
    List.dropWhile_cons_of_neg (by simp [hc])
  rw [Text.strip, String.toList_ofList, Text.trimChars, List.dropWhile_append_of_pos hxs, hcons,
    List.reverse_cons, List.dropWhile_append_of_pos hys', hcons]
  rfl

/-- A bracket takes all blanks on both its sides in both texts. -/
theorem echoes_bracket (hc : isBlank c = false) (h : s.Follows i t t') :
    s.Echoes ⟨bracket c, false⟩ i t t' where
  fails hnone := by
    rw [Option.eq_none_iff_forall_ne_some] at hnone ⊢
    intro u' hu'
    obtain ⟨v', hv', -⟩ := (rest?_bracket hc).1 hu'
    rw [h.dropWhile] at hv'
    cases hv : t.dropWhile isBlank with
    | nil =>
      rw [hv] at hv'
      cases hv'
    | cons d v =>
      rw [hv] at hv'
      obtain ⟨rfl, -⟩ := List.cons.inj hv'
      exact hnone _ ((rest?_bracket hc).2 ⟨v, hv, rfl⟩)
  takes {w u} ht hu _ := by
    obtain ⟨v, hv, rfl⟩ := (rest?_bracket hc).1 hu
    have hsplit (x : List Char) (y : List Char) (hy : x.dropWhile isBlank = c :: y) :
        x = (x.takeWhile isBlank ++ c :: y.takeWhile isBlank) ++ y.dropWhile isBlank := by
      rw [List.append_assoc, List.cons_append, List.takeWhile_append_dropWhile, ← hy,
        List.takeWhile_append_dropWhile]
    have hstrip (x y : List Char) : Text.strip (String.ofList
        (x.takeWhile isBlank ++ c :: y.takeWhile isBlank)) = String.singleton c :=
      strip_bracket hc (fun _ => List.mem_takeWhile_imp) fun _ => List.mem_takeWhile_imp
    have hw : w = t.takeWhile isBlank ++ c :: v.takeWhile isBlank :=
      List.append_cancel_right (ht.symm.trans (hsplit t v hv))
    -- Behind its blanks the changed text has the same bracket, with blanks behind it again.
    obtain ⟨v', hv', hfollows⟩ : ∃ v', t'.dropWhile isBlank = c :: v' ∧
        v'.dropWhile isBlank = s.behind (i + w.length) (v.dropWhile isBlank) := by
      have hbehind := h.dropWhile
      rw [hv] at hbehind
      refine ⟨_, hbehind, ?_⟩
      rw [Spacing.follows_insert.dropWhile, hw, List.length_append, List.length_cons]
      congr 1
      omega
    have ht' := hsplit t' v' hv'
    refine ⟨_, v'.dropWhile isBlank, ht', (rest?_bracket hc).2 ⟨v', hv', rfl⟩,
      Spacing.length_le_of_behind (ht ▸ h) (hfollows ▸ ht'), ?_,
      hfollows ▸ Spacing.follows_behind⟩
    rw [hstrip, hw, hstrip]

/-! ### Words -/

theorem isBlank_of_eq {c d : Char} (hc : isBlank c = false) (h : (c == d) = true) :
    isBlank d = false :=
  beq_iff_eq.1 h ▸ hc

open Regex

theorem solid_number : Solid false number := by
  have hsign : Solid false (oneOfChars ['-', '+']) := single_sign.solid fun _ => isBlank_of_isSign
  have hdigit (c : Char) (hc : Text.isDigit c = true) : isBlank c = false :=
    Text.isBlank_of_isDigit hc
  have hpoint : Solid false (char '.') :=
    (single_char '.').solid fun _ => isBlank_of_eq (by decide)
  have he : Solid false (char 'e') := (single_char 'e').solid fun _ => isBlank_of_eq (by decide)
  have hfraction : Solid false fractionPattern := hpoint.seq (single_digit.solid_many hdigit)
  have hexponent : Solid false exponentPattern :=
    he.seq (hsign.seq (single_digit.solid_atLeastOne hdigit))
  exact hsign.optional.seq ((single_digit.solid_atLeastOne hdigit).seq
    (hfraction.optional.seq hexponent.optional))

theorem solid_name : Solid true name :=
  (single_letter.solid fun _ => isBlank_of_isLetter).seq
    (single_nameChar.solid_many fun _ => isBlank_of_isNameChar)

/-- Blanks do not change whether a bracket comes next. -/
theorem bracketAhead_spread (h : Spread t t') : BracketAhead t ↔ BracketAhead t' := by
  induction h with
  | nil => exact .rfl
  | keep c _ ih => rw [bracketAhead_cons, bracketAhead_cons, ih]
  | @blank b _ _ hb _ ih =>
    have hne : b ≠ '(' := by
      rintro rfl
      exact absurd hb (by decide)
    rw [bracketAhead_cons, ih]
    simp [hb, hne]

theorem solid_callName : Solid true callName := by
  refine (single_letter.solid fun _ => isBlank_of_isLetter).seq
    ((single_nameChar.solid_many fun _ => isBlank_of_isNameChar).seq (.ahead fun h => ?_))
  rw [Bool.eq_iff_iff, isSome_run_bracketAhead, isSome_run_bracketAhead, bracketAhead_spread h]

theorem solid_separator : Solid false (char ',') :=
  (single_char ',').solid fun _ => isBlank_of_eq (by decide)

end Arithmetic

end Polish
