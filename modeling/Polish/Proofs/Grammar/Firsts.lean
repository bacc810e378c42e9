import Mathlib.Data.List.TakeWhile
import Polish.Proofs.Grammar.Lexemes
import Polish.Proofs.Grammar.Turns

/-!
# The first rule that matches at a word

When it is a word's turn, the rules of the turn are tried in order.  Which of them comes first is
settled by the word and by how the text goes on behind it:

* `Arithmetic.exists_numeral`, `Arithmetic.exists_call`, … — if a pattern takes some characters,
  what they are and what is then known of the rest;
* `Scan.first_number`, `Scan.first_call`, … — the other way round, what the rest must be like for a
  rule to take its word and no more, and for the rules before it to fail;
* `Scan.first_state` — a state takes all blanks.

## Why both directions

For a text of which tokens have been read, the match is there, and it has to be said what it is;
that is the first group.  For a text that has been put together, as the writing of an expression,
the match has to be found; that is the second one, and there the rules before the right one have to
be ruled out.  The classes of first characters are apart from each other, but for two: a name and
the name of a call begin alike, and the bracket behind it tells which one it is.
-/

set_option autoImplicit false

namespace Polish

open Arithmetic
open Text (isBlank isDigit)

namespace Turn

/-- The rules for words when it is this turn. -/
def tried : Turn → List Rule
  | value => [openRule, closeRule, numberRule, callRule, nameRule]
  | operator => [closeRule, separatorRule, symbolRule]
  | bracket => [openRule]

end Turn

/-! ## What the rules take -/

namespace Arithmetic

variable {x u : List Char}

theorem exists_numeral (h : (Pattern.mk number false).rest? (x ++ u) = some u) :
    ∃ n : Numeral, x = n.chars := by
  obtain ⟨n, rest, hsplit, hrest⟩ := exists_numeral_of_run h
  obtain rfl := Option.some.inj hrest
  exact ⟨n, List.append_cancel_right hsplit⟩

theorem exists_name (h : (Pattern.mk name true).rest? (x ++ u) = some u) :
    ∃ n : Name, x = n.chars := by
  obtain ⟨n, rest, hsplit, hrest⟩ := exists_name_of_run h
  obtain rfl := Option.some.inj hrest
  exact ⟨n, List.append_cancel_right hsplit⟩

theorem exists_call (h : (Pattern.mk callName true).rest? (x ++ u) = some u) :
    (∃ n : Name, x = n.chars) ∧ BracketAhead u := by
  rw [Pattern.rest?, run_callName_eq] at h
  obtain ⟨c, t, hfirst, hc, h⟩ := single_letter.run_eq_some h
  obtain ⟨others, rest, rfl, hothers, h⟩ := single_nameChar.run_many_eq_some h
  obtain ⟨hahead, hrest⟩ := Option.ite_none_right_eq_some.1 h
  obtain rfl := Option.some.inj hrest
  exact ⟨⟨⟨c, others, hc, hothers⟩, List.append_cancel_right hfirst⟩,
    isSome_run_bracketAhead.1 hahead⟩

/-- Where blanks have been taken, none is left. -/
theorem isBlank_head?_dropWhile (t : List Char) :
    ∀ c ∈ (t.dropWhile isBlank).head?, isBlank c = false := by
  intro c hc
  have hhead := List.head?_dropWhile_not isBlank t
  rw [Option.mem_def.1 hc] at hhead
  simpa using hhead

/-- A bracket is found behind blanks, and the blanks behind it are taken as well. -/
theorem exists_bracket {c : Char} (hc : isBlank c = false)
    (h : (Pattern.mk (bracket c) false).rest? (x ++ u) = some u) :
    ∃ lead trail, x = lead ++ c :: trail ∧ (∀ d ∈ lead, isBlank d = true) ∧
      (∀ d ∈ trail, isBlank d = true) ∧ ∀ d ∈ u.head?, isBlank d = false := by
  obtain ⟨v, hv, hu⟩ := (rest?_bracket hc).1 h
  have hv' : v = v.takeWhile isBlank ++ u := by
    rw [hu]
    exact List.takeWhile_append_dropWhile.symm
  have hsplit : x ++ u = ((x ++ u).takeWhile isBlank ++ c :: v.takeWhile isBlank) ++ u := by
    rw [List.append_assoc, List.cons_append, ← hv', ← hv, List.takeWhile_append_dropWhile]
  exact ⟨_, _, List.append_cancel_right hsplit, fun _ => List.mem_takeWhile_imp,
    fun _ => List.mem_takeWhile_imp, hu ▸ isBlank_head?_dropWhile v⟩

theorem eq_separator (h : (Pattern.mk (Regex.char ',') false).rest? (x ++ u) = some u) :
    x = [','] := by
  obtain ⟨c, rest, hsplit, hc, hrest⟩ := (Regex.single_char ',').run_eq_some h
  obtain rfl := Option.some.inj hrest
  obtain rfl := beq_iff_eq.1 hc
  exact List.append_cancel_right hsplit

theorem exists_symbol (h : (Pattern.mk operator false).rest? (x ++ u) = some u) :
    ∃ symbol ∈ operatorSymbols, x = symbol.toList := by
  rw [Pattern.rest?, reads_operator.chooses] at h
  obtain ⟨symbol, hsymbol, htaken⟩ := List.exists_of_findSome?_eq_some h
  obtain ⟨⟨rest, hrest⟩, htaken⟩ := Option.ite_none_right_eq_some.1 htaken
  rw [← hrest, ← String.length_toList, List.drop_left] at htaken
  obtain rfl := Option.some.inj htaken
  exact ⟨symbol, hsymbol, List.append_cancel_right hrest.symm⟩

end Arithmetic

/-! ## Which rule comes first -/

namespace Scan

variable {source rest : List Char} {i : Nat}

/-- A state takes all the blanks that there are. -/
theorem first_state {rule : Rule} (hrule : rule.pattern = (Pattern.mk blanks false).matcher)
    (source : List Char) (i : Nat) :
    firstMatch [rule] source i = some (rule, ((source.drop i).takeWhile isBlank).length) := by
  refine firstMatch_of [] nofun ?_
  rw [hrule]
  exact width?_eq_some_iff.2 ⟨_, _, List.takeWhile_append_dropWhile.symm, rest?_blanks, rfl⟩

/-- What is left of a text behind the blanks at an offset. -/
theorem drop_blanks (source : List Char) (i : Nat) :
    source.drop (i + ((source.drop i).takeWhile isBlank).length)
      = (source.drop i).dropWhile isBlank := by
  have hrest (t : List Char) : t.drop (t.takeWhile isBlank).length = t.dropWhile isBlank := by
    have hleft := @List.drop_left _ (t.takeWhile isBlank) (t.dropWhile isBlank)
    rwa [List.takeWhile_append_dropWhile] at hleft
  rw [← List.drop_drop, hrest]

/-- A word does not begin with a bracket if its first character is of some other class. -/
theorem width?_bracket {d : Char} {c : Char} {t : List Char} (hdrop : source.drop i = c :: t)
    (hblank : isBlank c = false) (hne : c ≠ d) :
    (Pattern.mk (bracket d) false).matcher.width? source i = none :=
  width?_eq_none hdrop (run_bracket_eq_none hblank hne)

theorem first_number (n : Numeral) (hrest : ∀ c ∈ rest.head?, EndsNumber c)
    (hdrop : source.drop i = n.chars ++ rest) :
    firstMatch Turn.value.tried source i = some (numberRule, n.chars.length) := by
  obtain ⟨c, t, hcons, hc⟩ := n.exists_cons
  have hblank : isBlank c = false := n.isBlank_chars c (hcons ▸ List.mem_cons_self)
  have hopen : c ≠ '(' := by
    rintro rfl
    exact absurd hc (by decide)
  have hclose : c ≠ ')' := by
    rintro rfl
    exact absurd hc (by decide)
  have hdrop' : source.drop i = c :: (t ++ rest) := by rw [hdrop, hcons, List.cons_append]
  refine firstMatch_of [openRule, closeRule] (fun r hr => ?_)
    (width?_of_rest? hdrop (run_number n hrest rfl))
  simp only [List.mem_cons, List.not_mem_nil, or_false] at hr
  rcases hr with rfl | rfl
  · exact width?_bracket hdrop' hblank hopen
  · exact width?_bracket hdrop' hblank hclose

/-- A name does not begin like a bracket or a number. -/
theorem before_name (n : Name) {t : List Char} (hdrop : source.drop i = n.chars ++ t) :
    ∀ r ∈ [openRule, closeRule, numberRule], r.pattern.width? source i = none := by
  have hblank : isBlank n.first = false := n.isBlank_chars _ List.mem_cons_self
  intro r hr
  simp only [List.mem_cons, List.not_mem_nil, or_false] at hr
  rcases hr with rfl | rfl | rfl
  · exact width?_bracket hdrop hblank (n.first_ne (by decide))
  · exact width?_bracket hdrop hblank (n.first_ne (by decide))
  · exact width?_eq_none hdrop (run_number_eq_none n.isSign_first n.isDigit_first)

theorem first_call (n : Name) (hrest : ∀ c ∈ rest.head?, isNameChar c = false)
    (hahead : BracketAhead rest) (hdrop : source.drop i = n.chars ++ rest) :
    firstMatch Turn.value.tried source i = some (callRule, n.chars.length) :=
  firstMatch_of [openRule, closeRule, numberRule] (before_name n hdrop)
    (width?_of_rest? hdrop (run_callName n hrest hahead rfl))

theorem first_name (n : Name) (hrest : ∀ c ∈ rest.head?, isNameChar c = false)
    (hahead : ¬ BracketAhead rest) (hdrop : source.drop i = n.chars ++ rest) :
    firstMatch Turn.value.tried source i = some (nameRule, n.chars.length) := by
  refine firstMatch_of ([openRule, closeRule, numberRule] ++ [callRule]) (fun r hr => ?_)
    (width?_of_rest? hdrop (run_name n hrest rfl))
  rcases List.mem_append.1 hr with hr | hr
  · exact before_name n hdrop r hr
  · obtain rfl := List.mem_singleton.1 hr
    exact width?_eq_none hdrop (run_callName_eq_none n hrest hahead)

/-- A bracket is taken with all the blanks around it. -/
theorem width?_bracket_of_blanks {c : Char} {lead trail : List Char} (hc : isBlank c = false)
    (hlead : ∀ d ∈ lead, isBlank d = true) (htrail : ∀ d ∈ trail, isBlank d = true)
    (hrest : ∀ d ∈ rest.head?, isBlank d = false)
    (hdrop : source.drop i = (lead ++ c :: trail) ++ rest) :
    (Pattern.mk (bracket c) false).matcher.width? source i = some (lead ++ c :: trail).length := by
  refine width?_of_rest? hdrop ?_
  rw [List.append_assoc]
  exact run_bracket hlead htrail hc hrest rfl

theorem first_openBracket {lead trail : List Char} (after : List Rule)
    (hlead : ∀ d ∈ lead, isBlank d = true) (htrail : ∀ d ∈ trail, isBlank d = true)
    (hrest : ∀ d ∈ rest.head?, isBlank d = false)
    (hdrop : source.drop i = (lead ++ '(' :: trail) ++ rest) :
    firstMatch (openRule :: after) source i = some (openRule, (lead ++ '(' :: trail).length) :=
  firstMatch_of [] nofun (width?_bracket_of_blanks (by decide) hlead htrail hrest hdrop)

theorem first_closeBracket {turn : Turn} (hturn : turn = .value ∨ turn = .operator)
    {lead trail : List Char} (hlead : ∀ d ∈ lead, isBlank d = true)
    (htrail : ∀ d ∈ trail, isBlank d = true) (hrest : ∀ d ∈ rest.head?, isBlank d = false)
    (hdrop : source.drop i = (lead ++ ')' :: trail) ++ rest) :
    firstMatch turn.tried source i = some (closeRule, (lead ++ ')' :: trail).length) := by
  have hclose : closeRule.pattern.width? source i = some (lead ++ ')' :: trail).length :=
    width?_bracket_of_blanks (by decide) hlead htrail hrest hdrop
  rcases hturn with rfl | rfl
  · refine firstMatch_of [openRule] (fun r hr => ?_) hclose
    obtain rfl := List.mem_singleton.1 hr
    refine width?_eq_none_iff.2 (Option.eq_none_iff_forall_ne_some.2 fun u hu => ?_)
    obtain ⟨v, hv, -⟩ := (rest?_bracket (by decide)).1 hu
    rw [hdrop, List.append_assoc, List.dropWhile_append_of_pos hlead, List.cons_append,
      List.dropWhile_cons_of_neg (by decide)] at hv
    exact absurd (List.cons.inj hv).1 (by decide)
  · exact firstMatch_of [] nofun hclose

theorem first_separator (hdrop : source.drop i = [','] ++ rest) :
    firstMatch Turn.operator.tried source i = some (separatorRule, 1) := by
  refine firstMatch_of [closeRule] (fun r hr => ?_) (width?_of_rest? hdrop Regex.run_char_cons)
  obtain rfl := List.mem_singleton.1 hr
  exact width?_bracket hdrop (by decide) (by decide)

theorem first_symbol {symbol : String} (hsymbol : symbol ∈ operatorSymbols)
    (hdrop : source.drop i = symbol.toList ++ rest) :
    firstMatch Turn.operator.tried source i = some (symbolRule, symbol.toList.length) := by
  have hheads : ∀ symbol ∈ operatorSymbols, ∃ c t, symbol.toList = c :: t ∧ isBlank c = false ∧
      c ≠ ')' ∧ c ≠ ',' := by
    intro symbol hsymbol
    simp only [operatorSymbols, List.mem_cons, List.not_mem_nil, or_false] at hsymbol
    rcases hsymbol with rfl | rfl | rfl | rfl | rfl | rfl | rfl | rfl | rfl | rfl | rfl | rfl <;>
      exact ⟨_, _, rfl, by decide, by decide, by decide⟩
  obtain ⟨c, t, hcons, hblank, hclose, hcomma⟩ := hheads symbol hsymbol
  have hdrop' : source.drop i = c :: (t ++ rest) := by rw [hdrop, hcons, List.cons_append]
  refine firstMatch_of [closeRule, separatorRule] (fun r hr => ?_)
    (width?_of_rest? hdrop (rest?_operator hsymbol rest))
  simp only [List.mem_cons, List.not_mem_nil, or_false] at hr
  rcases hr with rfl | rfl
  · exact width?_bracket hdrop' hblank hclose
  · exact width?_eq_none hdrop' (Regex.run_char_eq_none (by rintro d ⟨⟩; exact hcomma))

end Scan

end Polish
