import Polish.Proofs.Grammar.Firsts
import Polish.Proofs.Grammar.Lossless

/-!
# What the tokens of a text are

A token says where it comes from: its text stands in the text at its position
(`Grammar.Hookless.standsIn`).  And it says what it is: of the rules of the arithmetic grammar, each
kind of value has its own, so a token of that kind is what the pattern of the rule takes
(`Arithmetic.exists_numeral_of_token`, `Arithmetic.exists_name_of_token`).

## How the proof goes

Each token comes from a lexeme of a walk (`Hookless.exists_lexeme`), and a lexeme has its offset,
its width and its rule.  Going back from the kind of a token to the rule is possible for values,
since no two rules have the same one of these kinds; the state before operators is of the kind of
operators, but its tokens are left out.
-/

set_option autoImplicit false

namespace Polish

/-- The text of the token stands in the source at its position. -/
structure Token.StandsIn (token : Token) (source : String) : Prop where
  nonneg : 0 ≤ token.pos
  le_length : token.pos ≤ source.length
  text_at : (source.toList.drop token.pos.toNat).take token.text.length = token.text.toList

namespace Grammar

variable {g : Grammar} {source : String} {limit : Int} {keepIgnored : Bool} {tokens : List Token}

/-- **Every token stands in the text.** -/
theorem Hookless.standsIn (hg : g.Hookless) (h : g.parse source limit keepIgnored = .ok tokens)
    {t : Token} (ht : t ∈ tokens) : t.StandsIn source := by
  obtain ⟨l, handle, rfl, -, -, hwidth, hinside⟩ := hg.exists_lexeme h ht
  have hle := l.rule.pattern.width?_le _ _ _ hwidth
  refine ⟨Int.natCast_nonneg _, Int.ofNat_le.2 ?_, ?_⟩
  · rw [← String.length_toList]
    exact Nat.le_of_lt hinside
  · simp only [Lexeme.token, Lexeme.chars, String.length_ofList, String.toList_ofList,
      Int.toNat_natCast, List.length_take, Nat.min_eq_left hle]

/-- A token is what the pattern of its rule takes of the rest of the text. -/
theorem Hookless.exists_rule (hg : g.Hookless) (h : g.parse source limit keepIgnored = .ok tokens)
    {t : Token} (ht : t ∈ tokens) : ∃ rule ∈ g.rules.values, rule.kind = t.kind ∧
      ∃ offset rest, source.toList.drop offset = t.text.toList ++ rest ∧
        rule.pattern.width? source.toList offset = some t.text.toList.length := by
  obtain ⟨l, handle, rfl, hrule, -, hwidth, -⟩ := hg.exists_lexeme h ht
  have hle := l.rule.pattern.width?_le _ _ _ hwidth
  refine ⟨l.rule, hrule, rfl, l.offset, (source.toList.drop l.offset).drop l.width, ?_, ?_⟩
  · simp only [Lexeme.token, Lexeme.chars, String.toList_ofList]
    exact (List.take_append_drop _ _).symm
  · simp only [Lexeme.token, Lexeme.chars, String.toList_ofList, List.length_take,
      Nat.min_eq_left hle, hwidth]

end Grammar

namespace Arithmetic

variable {pattern : Pattern} {source : String} {limit : Int} {keepIgnored : Bool}
  {tokens : List Token} {t : Token}

/-- A kind of values has one rule of its own. -/
theorem rule_of_value {rule : Rule} (hrule : rule ∈ (reading pattern).rules.values) :
    (rule.kind = .number → rule = numberRule) ∧ (rule.kind = .constant → rule = nameRule) ∧
      (rule.kind = .call → rule = callRule) := by
  rw [values_reading] at hrule
  simp only [List.mem_cons, List.not_mem_nil, or_false] at hrule
  rcases hrule with rfl | rfl | rfl | rfl | rfl | rfl | rfl | rfl | rfl
  case inl => exact ⟨fun _ => rfl, nofun, nofun⟩
  case inr.inl => exact ⟨nofun, fun _ => rfl, nofun⟩
  case inr.inr.inl => exact ⟨nofun, nofun, fun _ => rfl⟩
  all_goals exact ⟨nofun, nofun, nofun⟩

/-- **A number of a text** has the parts of one. -/
theorem exists_numeral_of_token (h : (reading pattern).parse source limit keepIgnored = .ok tokens)
    (ht : t ∈ tokens) (hk : t.kind = .number) : ∃ n : Numeral, t.text.toList = n.chars := by
  obtain ⟨rule, hrule, hkind, offset, rest, hdrop, hwidth⟩ :=
    (hookless_reading pattern).exists_rule h ht
  obtain rfl := (rule_of_value hrule).1 (hkind.trans hk)
  exact exists_numeral (Scan.rest?_of_width? hdrop hwidth)

/-- **A name of a text** begins with a letter. -/
theorem exists_name_of_token (h : (reading pattern).parse source limit keepIgnored = .ok tokens)
    (ht : t ∈ tokens) (hk : t.kind = .constant ∨ t.kind = .call) :
    ∃ n : Name, t.text.toList = n.chars := by
  obtain ⟨rule, hrule, hkind, offset, rest, hdrop, hwidth⟩ :=
    (hookless_reading pattern).exists_rule h ht
  obtain ⟨-, hconstant, hcall⟩ := rule_of_value hrule
  rcases hk with hk | hk
  · obtain rfl := hconstant (hkind.trans hk)
    exact exists_name (Scan.rest?_of_width? hdrop hwidth)
  · obtain rfl := hcall (hkind.trans hk)
    exact (exists_call (Scan.rest?_of_width? hdrop hwidth)).1

end Arithmetic

end Polish
