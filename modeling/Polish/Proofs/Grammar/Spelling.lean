import Polish.Proofs.Grammar.Tokens
import Polish.Proofs.Grammar.Words

/-!
# How tokens are spelled

The values, calls and operators of a text are spelled differently: a number begins with a sign or a
digit and has a digit in it, a name begins with a letter, and a symbol has neither digits nor
letters.  So the text of such a token says what its kind is, but that a name may be that of a call
or of a constant (`Token.Spelled.kind_eq`).

None of them has a character in it by which a printed listing is laid out
(`Token.Spelled.plain`).

## How the proof goes

Numbers and names are known by their first characters, and for a symbol it is looked up in the table
of symbols that it has no character of either, which is decided once for all of them
(`symbol_chars`).
-/

set_option autoImplicit false

namespace Polish

open Arithmetic
open Text (isBlank isDigit)

/-! ## Numbers, names and symbols are different texts -/

namespace Arithmetic

/-- What holds of the characters of all symbols in the table. -/
theorem symbol_chars (p : Char → Prop) [DecidablePred p]
    (h : (operatorSymbols.all fun symbol => symbol.toList.all fun c => decide (p c)) = true)
    {symbol : String} (hsymbol : symbol ∈ operatorSymbols) : ∀ c ∈ symbol.toList, p c :=
  fun c hc => of_decide_eq_true (List.all_eq_true.1 (List.all_eq_true.1 h symbol hsymbol) c hc)

theorem Numeral.chars_ne_name (n : Numeral) (name : Name) : n.chars ≠ name.chars := by
  obtain ⟨c, t, hcons, hc⟩ := n.exists_cons
  rw [hcons, Name.chars]
  rintro heq
  rw [(List.cons.inj heq).1, name.isSign_first, name.isDigit_first] at hc
  exact hc.elim Bool.false_ne_true Bool.false_ne_true

theorem Numeral.chars_ne_symbol (n : Numeral) {symbol : String} (h : symbol ∈ operatorSymbols) :
    n.chars ≠ symbol.toList := by
  obtain ⟨d, ds, hdigits⟩ := List.exists_cons_of_ne_nil n.digits_ne_nil
  have hd : d ∈ n.digits := hdigits ▸ List.mem_cons_self
  intro heq
  have hdigit := symbol_chars (isDigit · = false) (by decide) h d
    (heq ▸ by simp [Numeral.chars, hd])
  rw [n.isDigit_digits d hd] at hdigit
  cases hdigit

theorem Name.chars_ne_symbol (n : Name) {symbol : String} (h : symbol ∈ operatorSymbols) :
    n.chars ≠ symbol.toList := by
  intro heq
  have hletter := symbol_chars (isLetter · = false) (by decide) h n.first
    (heq ▸ List.mem_cons_self)
  rw [n.isLetter_first] at hletter
  cases hletter

end Arithmetic

/-! ## Tokens -/

/-- The text of the token is a word of its kind. -/
inductive Token.Spelled (t : Token) : Prop
  | number (hk : t.kind = .number) (n : Numeral) (htext : t.text.toList = n.chars)
  | name (hk : t.kind = .constant ∨ t.kind = .call) (n : Name) (htext : t.text.toList = n.chars)
  | symbol (hk : t.kind = .operator) (htext : t.text ∈ operatorSymbols)

namespace Token.Spelled

variable {t u : Token}

/-- The characters by which a printed listing is laid out. -/
abbrev layout : List Char := [' ', ',', '(', ')']

/-- **Words have none of the characters of the layout.** -/
theorem plain (h : t.Spelled) : ∀ c ∈ t.text.toList, c ∉ layout := by
  have hlayout : (layout.all fun c => decide (isDigit c = false ∧ isSign c = false ∧ c ≠ '.' ∧
      c ≠ 'e' ∧ isLetter c = false ∧ isNameChar c = false)) = true := by decide +kernel
  intro c hc hmem
  obtain ⟨hdigit, hsign, hpoint, he, hletter, hnameChar⟩ :=
    of_decide_eq_true (List.all_eq_true.1 hlayout c hmem)
  cases h with
  | number hk n htext =>
    rcases n.cases_of_mem (htext ▸ hc) with h | h | h | h
    · rw [hdigit] at h
      cases h
    · rw [hsign] at h
      cases h
    · exact hpoint h
    · exact he h
  | name hk n htext =>
    rcases List.mem_cons.1 (htext ▸ hc : c ∈ n.chars) with h | h
    · exact n.first_ne hletter h.symm
    · rw [n.isNameChar_others c h] at hnameChar
      cases hnameChar
  | symbol hk htext => exact symbol_chars (· ∉ layout) (by decide) htext c hc hmem

theorem isBlank_eq_false (h : t.Spelled) : ∀ c ∈ t.text.toList, isBlank c = false := by
  cases h with
  | number hk n htext => exact htext ▸ n.isBlank_chars
  | name hk n htext => exact htext ▸ n.isBlank_chars
  | symbol hk htext => exact symbol_chars (isBlank · = false) (by decide) htext

/-- There is nothing to be stripped from a word. -/
theorem strip_eq (h : t.Spelled) : Text.strip t.text = t.text :=
  Word.strip_eq_self h.isBlank_eq_false

theorem exists_cons (h : t.Spelled) : ∃ c rest, t.text.toList = c :: rest := by
  have hsymbols : ∀ symbol ∈ operatorSymbols, symbol.toList ≠ [] := by decide
  cases h with
  | number hk n htext =>
    obtain ⟨c, rest, hcons, -⟩ := n.exists_cons
    exact ⟨c, rest, htext.trans hcons⟩
  | name hk n htext => exact ⟨n.first, n.others, htext⟩
  | symbol hk htext => exact List.exists_cons_of_ne_nil (hsymbols _ htext)

/-- **Words with the same text are of the same kind**, if they are both calls or both not. -/
theorem kind_eq (h : t.Spelled) (h' : u.Spelled) (htexts : t.text = u.text)
    (hcall : t.kind = .call ↔ u.kind = .call) : t.kind = u.kind := by
  cases h with
  | number hk n htext =>
    cases h' with
    | number hk' => exact hk.trans hk'.symm
    | name hk' name htext' =>
      exact absurd (htext.symm.trans (htexts ▸ htext')) (n.chars_ne_name name)
    | symbol hk' htext' => exact absurd htext.symm (htexts ▸ n.chars_ne_symbol htext')
  | name hk name htext =>
    cases h' with
    | number hk' n htext' =>
      exact absurd (htext'.symm.trans (htexts ▸ htext)) (n.chars_ne_name name)
    | name hk' =>
      rcases hk with hk | hk
      · exact hk.trans (hk'.resolve_right fun h => by rw [hcall.2 h] at hk; cases hk).symm
      · exact hk.trans (hcall.1 hk).symm
    | symbol hk' htext' => exact absurd htext.symm (htexts ▸ name.chars_ne_symbol htext')
  | symbol hk htext =>
    cases h' with
    | number hk' n htext' => exact absurd htext'.symm (htexts ▸ n.chars_ne_symbol htext)
    | name hk' name htext' => exact absurd htext'.symm (htexts ▸ name.chars_ne_symbol htext)
    | symbol hk' => exact hk.trans hk'.symm

end Token.Spelled

end Polish
