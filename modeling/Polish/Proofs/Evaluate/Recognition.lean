import Polish.Proofs.Evaluate.Complete
import Polish.Proofs.Grammar.Turns
import Polish.Proofs.Tree.Listing

/-!
# What becomes complete is an expression

The arithmetic grammar lets more through than expressions, for an operator may stand before a
closing bracket, as in `(1+)`.  Such a text compiles, but not to a complete listing, and the reason
is in numbers: operators take one value more than they give, and where values and operators take
turns there is never more than one value left over, and only in an expression there is one.

`Phrase.surplus_turns` is this count, and `Phrase.isExpression_of_complete` says that a phrase that
takes turns and has a complete listing is an expression.

## How the proof goes

The statement that goes through an induction on phrases is about any phrase that takes turns, also
one that stops in the middle: `Phrase.Counted` gives its bound for both of the turns that may be
left.  If the bound is reached, what is in front of each operator and in each pair of brackets has
reached its own, as nothing can make up for a loss, and then the phrase goes on as an expression
does.

The arguments of a call are not counted with the listing, where the call is one token.  That they
are complete listings is known from the sheet, and that they are the arguments of this call from the
entries that the compilation made.
-/

set_option autoImplicit false

namespace Polish

open Evaluate

/-! ## Counting what a phrase leaves over -/

theorem Yard.listing_cons_perm (m : Mode) (operators : Table Operator) (q : Piece)
    (pieces : List Piece) : (Yard.listing m operators (q :: pieces)).Perm
      (q.tokens ++ Yard.listing m operators pieces) :=
  (Yard.listing_perm m operators (q :: pieces)).trans
    ((Yard.listing_perm m operators pieces).symm.append_left q.tokens)

/-- A phrase is what an expression looks like. -/
def Phrase.IsExpression (operators : Table Operator) (limit : Int) (p : Phrase) : Prop :=
  ∃ x : Expression, x.toPhrase = p ∧ x.Proper ∧ x.Valid operators limit

/-- A phrase goes on from a term as an expression does. -/
def Phrase.Continues (operators : Table Operator) (limit : Int) (p : Phrase) : Prop :=
  ∀ t : Term, t.Proper → t.Valid operators limit → (t.then p).IsExpression operators limit

theorem Phrase.continues_nil {operators : Table Operator} {limit : Int} :
    Phrase.nil.Continues operators limit :=
  fun t hp hv => ⟨.single t, rfl, hp, hv⟩

theorem Phrase.IsExpression.continues {operators : Table Operator} {limit : Int} {o : Token}
    {rest : Phrase} (ho : o.kind = .operator) (hreg : operators.contains o.text = true)
    (h : rest.IsExpression operators limit) :
    (Phrase.plain o rest).Continues operators limit := by
  obtain ⟨x, rfl, hp, hv⟩ := h
  exact fun t htp htv => ⟨.chain t o x, rfl, ⟨htp, ho, hp⟩, ⟨htv, hreg, hv⟩⟩

/-- A closing bracket does not come directly after a name, and after it an operator is due. -/
theorem Turn.after_close {turn last : Turn} {xs ys : List Token} {c : Token}
    (hc : c.kind = .closeBracket) (h : turn.after (xs ++ c :: ys) = some last) :
    ∃ turn', turn.after xs = some turn' ∧ turn' ≠ .bracket ∧
      Turn.operator.after ys = some last := by
  rw [after_append, Option.bind_eq_some_iff] at h
  obtain ⟨u, hu, h⟩ := h
  rw [after, hc] at h
  cases u with
  | value | operator => exact ⟨_, hu, by simp, h⟩
  | bracket => cases h

section

variable (m : Mode) (operators : Table Operator)

theorem Phrase.listing_plain (t : Token) (rest : Phrase) :
    ((Phrase.plain t rest).listing m operators).Perm (t :: rest.listing m operators) := by
  have h := Yard.listing_cons_perm m operators (.ofToken t) (rest.pieces m operators)
  rwa [Piece.tokens_ofToken] at h

theorem Phrase.listing_group (o c : Token) (p rest : Phrase) :
    ((Phrase.bracket none o (.last p) c rest).listing m operators).Perm
      (p.listing m operators ++ rest.listing m operators) :=
  Yard.listing_cons_perm m operators (.operand _) (rest.pieces m operators)

theorem Phrase.listing_call (f o c : Token) (inner : Phrases) (rest : Phrase) :
    ((Phrase.bracket (some f) o inner c rest).listing m operators).Perm
      (f :: rest.listing m operators) :=
  Yard.listing_cons_perm m operators (.operand _) (rest.pieces m operators)

end

variable {m : Mode} {sheet : Sheet} {operators : Table Operator} {limit : Int}

/-- The listing of the phrase leaves at most one value over where a value is due and none where an
operator is due, and if it leaves as much then the phrase is part of an expression. -/
def Phrase.Counted (m : Mode) (operators : Table Operator) (limit : Int) (p : Phrase) : Prop :=
  ((∃ turn, Turn.value.after p.tokens = some turn) →
    surplus (p.listing m operators) ≤ 1 ∧
      (surplus (p.listing m operators) = 1 → p.IsExpression operators limit)) ∧
  ((∃ turn, Turn.operator.after p.tokens = some turn) →
    surplus (p.listing m operators) ≤ 0 ∧
      (surplus (p.listing m operators) = 0 → p.Continues operators limit))

theorem Phrase.Counted.nil : Phrase.nil.Counted m operators limit := by
  simp [Phrase.Counted, surplus, Phrase.continues_nil]

/-- After a value an operator is due. -/
theorem Phrase.Counted.value {t : Token} {rest : Phrase} (hk : t.kind.isValue = true)
    (hrest : rest.Counted m operators limit) :
    (Phrase.plain t rest).Counted m operators limit := by
  have hno : t.kind ≠ .operator := by
    intro h
    rw [h] at hk
    cases hk
  have hnext : Turn.value.next t.kind = some .operator ∧ Turn.operator.next t.kind = none := by
    cases h : t.kind <;> simp [h, Kind.isValue] at hk <;> exact ⟨rfl, rfl⟩
  rw [Phrase.Counted, surplus_perm (Phrase.listing_plain m operators t rest), surplus,
    Phrase.tokens]
  simp only [Turn.after, hnext.1, hnext.2, if_neg hno]
  refine ⟨fun hturn => ?_, by simp⟩
  obtain ⟨hle, heq⟩ := hrest.2 hturn
  exact ⟨by omega, fun h => heq (by omega) (.value t) hk trivial⟩

/-- After an operator a value is due. -/
theorem Phrase.Counted.operator {t : Token} {rest : Phrase} (hk : t.kind = .operator)
    (hreg : operators.contains t.text = true) (hrest : rest.Counted m operators limit) :
    (Phrase.plain t rest).Counted m operators limit := by
  rw [Phrase.Counted, surplus_perm (Phrase.listing_plain m operators t rest), surplus,
    Phrase.tokens]
  simp only [Turn.after, hk, if_pos]
  refine ⟨?_, fun hturn => ?_⟩
  · rintro ⟨_, h⟩
    cases h
  · obtain ⟨hle, heq⟩ := hrest.1 hturn
    exact ⟨by omega, fun h => (heq (by omega)).continues hk hreg⟩

/-- What is in brackets counts as one value exactly if it is an expression. -/
theorem Phrase.Counted.group {o c : Token} {q rest : Phrase} (ho : o.kind = .openBracket)
    (hc : c.kind = .closeBracket) (hq : q.Counted m operators limit)
    (hrest : rest.Counted m operators limit) :
    (Phrase.bracket none o (.last q) c rest).Counted m operators limit := by
  rw [Phrase.Counted, surplus_perm (Phrase.listing_group m operators o c q rest), surplus_append,
    Phrase.tokens]
  simp only [Option.toList_none, List.nil_append, Turn.after, ho, Phrases.tokens]
  constructor
  · rintro ⟨last, hturn⟩
    obtain ⟨turn, hturns, -, hturnr⟩ := Turn.after_close hc hturn
    obtain ⟨hle, heq⟩ := hq.1 ⟨turn, hturns⟩
    obtain ⟨hler, heqr⟩ := hrest.2 ⟨last, hturnr⟩
    refine ⟨by omega, fun h => ?_⟩
    obtain ⟨x, rfl, hp, hv⟩ := heq (by omega)
    exact heqr (by omega) (.group o x c) ⟨ho, hp, hc⟩ hv
  · rintro ⟨_, h⟩
    cases h

/-- A call counts as one value, and it is a term if its arguments are expressions. -/
theorem Phrase.Counted.call {f o c : Token} {inner : Phrases} {rest : Phrase}
    (hk : f.kind = .call) (ho : o.kind = .openBracket) (hc : c.kind = .closeBracket)
    (hterm : (∃ turn, Turn.value.after inner.tokens = some turn) → ∃ t : Term,
      t.Proper ∧ t.Valid operators limit ∧ t.then rest = .bracket (some f) o inner c rest)
    (hrest : rest.Counted m operators limit) :
    (Phrase.bracket (some f) o inner c rest).Counted m operators limit := by
  rw [Phrase.Counted, surplus_perm (Phrase.listing_call m operators f o c inner rest), surplus,
    Phrase.tokens]
  simp only [Option.toList_some, List.cons_append, List.nil_append, Turn.after, ho, hk]
  constructor
  · rintro ⟨last, hturn⟩
    obtain ⟨turn, hturns, -, hturnr⟩ := Turn.after_close hc hturn
    obtain ⟨hle, heq⟩ := hrest.2 ⟨last, hturnr⟩
    rw [if_neg (by decide)]
    refine ⟨by omega, fun h => ?_⟩
    obtain ⟨t, htp, htv, hthen⟩ := hterm ⟨turn, hturns⟩
    rw [← hthen]
    exact heq (by omega) t htp htv
  · rintro ⟨_, h⟩
    cases h

mutual

/-- **What is left over** is at most one value where a value is due and none where an operator is
due, and only expressions leave as much. -/
theorem Phrase.surplus_turns (h0 : 0 ≤ limit) :
    (p : Phrase) → p.Matched → p.Sound operators limit →
      (∀ entry ∈ p.entries m operators, sheet.args? entry.1 = some entry.2) →
      ArgumentsComplete m sheet (p.listing m operators) → p.Counted m operators limit
  | .nil, _, _, _, _ => .nil
  | .plain t rest, ⟨_, _, _, hr⟩, ⟨hk, hsound⟩, hentries, hargs => by
    have hperm := Phrase.listing_plain m operators t rest
    have hrest := rest.surplus_turns h0 hr hsound hentries
      (hargs.of_subset fun u hu => hperm.mem_iff.2 (List.mem_cons_of_mem t hu))
    rcases hk with hk | ⟨hk, hreg⟩
    · exact hrest.value hk
    · exact hrest.operator hk hreg
  | .bracket none o (.last q) c rest, ⟨_, ho, hq, hc, hr⟩, ⟨_, hsq, hsr⟩, hentries, hargs => by
    have hperm := Phrase.listing_group m operators o c q rest
    -- Both parts are counted, with what the sheet says about the calls in them.
    have hinner := q.surplus_turns h0 hq hsq
      (fun entry he => hentries entry
        (by simp [Phrase.entries, Phrases.entries, Mode.mem_join, he]))
      (hargs.of_subset fun u hu => hperm.mem_iff.2 (List.mem_append_left _ hu))
    have hrest := rest.surplus_turns h0 hr hsr
      (fun entry he => hentries entry (by simp [Phrase.entries, Mode.mem_join, he]))
      (hargs.of_subset fun u hu => hperm.mem_iff.2 (List.mem_append_right _ hu))
    exact .group ho hc hinner hrest
  | .bracket none _ (.more ..) _ _, _, ⟨⟨_, h, _⟩, _⟩, _, _ => by cases h
  | .bracket (some f) o inner c rest, ⟨hf, ho, hi, hc, hr⟩, ⟨⟨_, hcount⟩, hsi, hsr⟩, hentries,
      hargs => by
    have hperm := Phrase.listing_call m operators f o c inner rest
    have hk : f.kind = .call := hf f rfl
    have hrest := rest.surplus_turns h0 hr hsr
      (fun entry he => hentries entry (by simp [Phrase.entries, Mode.mem_join, he]))
      (hargs.of_subset fun u hu => hperm.mem_iff.2 (List.mem_cons_of_mem f hu))
    refine .call hk ho hc (fun hturns => ?_) hrest
    by_cases hbare : inner = .last .nil
    · subst hbare
      exact ⟨.bare f o c, ⟨hk, ho, hc⟩, h0, rfl⟩
    · -- The arguments on the sheet are the ones that the compilation attached to the name.
      obtain ⟨args, hattached, hcomplete⟩ := hargs f (hperm.mem_iff.2 List.mem_cons_self) hk
      have hentry := hentries (f.handle, inner.arguments.map (Phrase.listing m operators))
        (by simp [Phrase.entries, Mode.mem_join])
      rw [Phrases.arguments_of_ne hbare] at hentry
      obtain rfl := Option.some.inj (hattached.symm.trans hentry)
      obtain ⟨as, rfl, hp, hv⟩ := inner.exists_arguments h0 hi hsi
        (fun entry he => hentries entry (by simp [Phrase.entries, Mode.mem_join, he]))
        (fun p hp => hcomplete _ (List.mem_map_of_mem hp)) hturns
      rw [as.length_arguments] at hcount
      have hlimit : (as.count : Int) ≤ limit := hcount.elim (fun h => by omega) id
      exact ⟨.call f o as c, ⟨hk, ho, hp, hc⟩, ⟨hlimit, hv⟩, rfl⟩

/-- Arguments with complete listings are expressions. -/
theorem Phrases.exists_arguments (h0 : 0 ≤ limit) :
    (ps : Phrases) → ps.Matched → ps.Sound operators limit →
      (∀ entry ∈ ps.entries m operators, sheet.args? entry.1 = some entry.2) →
      (∀ p ∈ ps.head :: ps.tail, Complete m sheet (p.listing m operators)) →
      (∃ turn, Turn.value.after ps.tokens = some turn) →
      ∃ as : Arguments, as.toPhrases = ps ∧ as.Proper ∧ as.Valid operators limit
  | .last p, hm, hs, hentries, hcomplete, hturns => by
    have hp := hcomplete p List.mem_cons_self
    obtain ⟨x, rfl, hx, hv⟩ :=
      ((p.surplus_turns h0 hm hs hentries (complete_iff.1 hp).2).1 hturns).2 hp.surplus_eq
    exact ⟨.last x, rfl, hx, hv⟩
  | .more p s rest, ⟨hm, hk, hr⟩, ⟨hs, hsr⟩, hentries, hcomplete, hturns => by
    have hp := hcomplete p List.mem_cons_self
    obtain ⟨turn, hturn⟩ := hturns
    rw [Phrases.tokens, Turn.after_append, Option.bind_eq_some_iff] at hturn
    obtain ⟨u, hu, hturn⟩ := hturn
    obtain ⟨x, rfl, hx, hv⟩ := ((p.surplus_turns h0 hm hs
      (fun entry he => hentries entry (by simp [Phrases.entries, Mode.mem_join, he]))
      (complete_iff.1 hp).2).1 ⟨u, hu⟩).2 hp.surplus_eq
    have hrest : Turn.value.after rest.tokens = some turn := by
      rw [Turn.after, hk] at hturn
      cases u with
      | operator => exact hturn
      | value | bracket => cases hturn
    obtain ⟨as, rfl, ha, hva⟩ := rest.exists_arguments h0 hr hsr
      (fun entry he => hentries entry (by simp [Phrases.entries, Mode.mem_join, he]))
      (fun q hq => hcomplete q (List.mem_cons_of_mem _ hq)) ⟨turn, hrest⟩
    exact ⟨.more x s as, rfl, ⟨hx, hk, ha⟩, ⟨hv, hva⟩⟩

end

/-- **A phrase that takes turns and has a complete listing is an expression.** -/
theorem Phrase.isExpression_of_complete (h0 : 0 ≤ limit) {p : Phrase} (hm : p.Matched)
    (hs : p.Sound operators limit)
    (hentries : ∀ entry ∈ p.entries m operators, sheet.args? entry.1 = some entry.2)
    (hcomplete : Complete m sheet (p.listing m operators)) (hturns : TakesTurns p.tokens) :
    p.IsExpression operators limit :=
  ((p.surplus_turns h0 hm hs hentries (complete_iff.1 hcomplete).2).1 hturns).2 hcomplete.surplus_eq

end Polish
