import Mathlib.Data.List.Chain
import Polish.Proofs.Engine.Registration
import Polish.Proofs.Evaluate.Expression
import Polish.Proofs.Evaluate.Recognition

/-!
# Operators before closing brackets

A closing bracket may come where a value is due, because a call without arguments needs that, and so
the grammar lets an operator stand directly before one: `(1+)` is read and compiled.
`NoDangling` says that this happens nowhere, and it is the only way in which a text that is read
and compiled can fail to be an expression.

`Engine.complete_iff_noDangling` — what such a text compiles to is complete exactly if no operator
is before a closing bracket, and then its evaluation does not turn out malformed.
`Engine.compiled_incomplete` shows that `(1+)` does get that far.

## How the proof goes

The grammar lets tokens take turns, a value and then an operator, and the one place where it gives
way is a closing bracket in the place of a value.  So going through a phrase with the turn that is
due (`Phrase.reads_on`), there is always an expression in the making, except after an operator
directly before a bracket.  Conversely an expression has no such place, by induction on its shape.

Completeness is then known in both cases: the listing of an expression is the listing of a tree, and
that is complete; and if a phrase is no expression, some listing has one operator more than its
operands can feed, which `Phrase.isExpression_of_complete` rules out for complete ones.
-/

set_option autoImplicit false

namespace Polish

open Evaluate

/-- No operator stands directly before a closing bracket. -/
def NoDangling (tokens : List Token) : Prop :=
  tokens.IsChain fun a b => a.kind = .operator → b.kind ≠ .closeBracket

theorem noDangling_cons {t : Token} {ts : List Token} : NoDangling (t :: ts) ↔
    (t.kind = .operator → ∀ u ∈ ts.head?, u.kind ≠ .closeBracket) ∧ NoDangling ts := by
  rw [NoDangling, List.isChain_cons]
  exact and_congr_left fun _ => ⟨fun h hk u hu => h u hu hk, fun h u hu hk => h hk u hu⟩

/-! ## Expressions -/

/-- What begins with an operand and has no operator before a closing bracket. -/
def Opens (tokens : List Token) : Prop :=
  (∀ t ∈ tokens.head?, t.kind ≠ .closeBracket) ∧ NoDangling tokens

theorem NoDangling.cons {t : Token} {ts : List Token} (h : NoDangling ts)
    (hk : t.kind ≠ .operator) : NoDangling (t :: ts) :=
  noDangling_cons.2 ⟨fun hk' => absurd hk' hk, h⟩

theorem Opens.cons {t : Token} {ts : List Token} (h : NoDangling ts)
    (hk : t.kind ≠ .operator ∧ t.kind ≠ .closeBracket) : Opens (t :: ts) :=
  ⟨by simpa using hk.2, h.cons hk.1⟩

theorem Opens.after_operator {t : Token} {ts : List Token} (h : Opens ts) :
    NoDangling (t :: ts) :=
  noDangling_cons.2 ⟨fun _ => h.1, h.2⟩

mutual

theorem Term.opens : (t : Term) → t.Proper → ∀ ys, NoDangling ys → Opens (t.tokens ++ ys)
  | .value t, h, ys, hys => by
    refine .cons hys ?_
    rw [Term.Proper] at h
    constructor <;> (intro hk; rw [hk] at h; cases h)
  | .group o inner c, ⟨ho, hi, hc⟩, ys, hys => by
    have hinner := inner.opens hi (c :: ys) (hys.cons (by simp [hc]))
    simpa [Term.tokens] using Opens.cons hinner.2 (t := o) (by simp [ho])
  | .bare n o c, ⟨hn, ho, hc⟩, ys, hys =>
    .cons ((hys.cons (t := c) (by simp [hc])).cons (t := o) (by simp [ho])) (by simp [hn])
  | .call n o args c, ⟨hn, ho, ha, hc⟩, ys, hys => by
    have hargs := args.opens ha (c :: ys) (hys.cons (by simp [hc]))
    have hopening := hargs.2.cons (t := o) (by simp [ho])
    simpa [Term.tokens] using Opens.cons hopening (t := n) (by simp [hn])

theorem Expression.opens : (x : Expression) → x.Proper → ∀ ys, NoDangling ys →
    Opens (x.tokens ++ ys)
  | .single t, h, ys, hys => t.opens h ys hys
  | .chain t o rest, ⟨ht, _, hr⟩, ys, hys => by
    have hrest := (rest.opens hr ys hys).after_operator (t := o)
    simpa [Expression.tokens] using t.opens ht _ hrest

theorem Arguments.opens : (as : Arguments) → as.Proper → ∀ ys, NoDangling ys →
    Opens (as.tokens ++ ys)
  | .last x, h, ys, hys => x.opens h ys hys
  | .more x s rest, ⟨hx, _, hr⟩, ys, hys => by
    have hrest := (rest.opens hr ys hys).after_operator (t := s)
    simpa [Arguments.tokens] using x.opens hx _ hrest

end

/-- Expressions have no operator before a closing bracket. -/
theorem Expression.noDangling {x : Expression} (h : x.Proper) : NoDangling x.tokens := by
  have hopens := x.opens h [] List.IsChain.nil
  rw [List.append_nil] at hopens
  exact hopens.2

/-! ## Phrases -/

variable {m : Mode} {operators : Table Operator} {limit : Int}

/-- A phrase after which a value is due ends with an operator. -/
theorem Phrase.ends_with_operator {turn : Turn} : {p : Phrase} → p.Matched → p ≠ .nil →
    turn.after p.tokens = some .value → ∃ o ∈ p.tokens.getLast?, o.kind = .operator
  | .nil, _, hne, _ => absurd rfl hne
  | .plain t rest, ⟨hw, hs, _, hr⟩, _, h => by
    rw [Phrase.tokens, Turn.after, Option.bind_eq_some_iff] at h
    obtain ⟨turn', hnext, h⟩ := h
    by_cases hrest : rest = .nil
    · subst hrest
      obtain rfl := Option.some.inj h
      refine ⟨t, rfl, ?_⟩
      cases turn <;> cases hk : t.kind <;> simp_all [Turn.next, Kind.weight]
    · obtain ⟨o, ho, hk⟩ := ends_with_operator hr hrest h
      exact ⟨o, by simp_all [Phrase.tokens, List.getLast?_cons], hk⟩
  | .bracket name o inner c rest, ⟨_, _, _, hc, hr⟩, _, h => by
    rw [Phrase.tokens, ← List.cons_append, ← List.append_assoc] at h ⊢
    obtain ⟨_, -, -, h⟩ := Turn.after_close hc h
    have hrest : rest ≠ .nil := by
      rintro rfl
      cases h
    obtain ⟨o, ho, hk⟩ := ends_with_operator hr hrest h
    exact ⟨o, by simp_all [List.getLast?_append, List.getLast?_cons], hk⟩

/-- In brackets with something inside, a value is not due at the end. -/
theorem Phrase.ends_before_close {turn last : Turn} {p : Phrase} {c : Token} {ys : List Token}
    (hm : p.Matched) (hne : p ≠ .nil) (hc : c.kind = .closeBracket)
    (hd : NoDangling (p.tokens ++ c :: ys)) (h : turn.after (p.tokens ++ c :: ys) = some last) :
    turn.after p.tokens = some .operator ∧ Turn.operator.after ys = some last := by
  obtain ⟨turn', hturn, hbracket, hrest⟩ := Turn.after_close hc h
  refine ⟨?_, hrest⟩
  cases turn' with
  | operator => exact hturn
  | bracket => exact absurd rfl hbracket
  | value =>
    obtain ⟨o, ho, hk⟩ := Phrase.ends_with_operator hm hne hturn
    exact absurd hc ((List.isChain_append.1 hd).2.2 o ho c rfl hk)

mutual

/-- Where a value is due, a phrase that ends with one is an expression, and where an operator is
due it goes on as an expression does. -/
theorem Phrase.reads_on (h0 : 0 ≤ limit) :
    (p : Phrase) → p.Matched → p.Sound operators limit → NoDangling p.tokens →
      (Turn.value.after p.tokens = some .operator → p.IsExpression operators limit) ∧
        (Turn.operator.after p.tokens = some .operator → p.Continues operators limit)
  | .nil, _, _, _ => ⟨nofun, fun _ => Phrase.continues_nil⟩
  | .plain t rest, ⟨_, _, _, hr⟩, ⟨hk, hsound⟩, hd => by
    obtain ⟨hvalue, hoperator⟩ := rest.reads_on h0 hr hsound (noDangling_cons.1 hd).2
    rw [Phrase.tokens, Turn.after, Turn.after]
    rcases hk with hk | ⟨hk, hreg⟩
    · have hnext : Turn.value.next t.kind = some .operator ∧ Turn.operator.next t.kind = none := by
        cases h : t.kind <;> simp [h, Kind.isValue] at hk <;> exact ⟨rfl, rfl⟩
      rw [hnext.1, hnext.2]
      exact ⟨fun h => hoperator h (.value t) hk trivial, nofun⟩
    · rw [hk]
      exact ⟨nofun, fun h => (hvalue h).continues hk hreg⟩
  | .bracket none o (.last q) c rest, ⟨_, ho, hq, hc, hr⟩, ⟨⟨_, hlast, hne⟩, hsq, hsr⟩, hd => by
    obtain rfl := Phrases.last.inj hlast
    rw [Phrase.tokens, Option.toList_none, List.nil_append] at hd ⊢
    have hinner := (noDangling_cons.1 hd).2
    rw [Turn.after, Turn.after, ho]
    refine ⟨fun h => ?_, nofun⟩
    -- No operator stands before the closing bracket, so what is inside ends where one is due.
    obtain ⟨hturn, hrest⟩ := Phrase.ends_before_close hq hne hc hinner h
    obtain ⟨x, rfl, hp, hv⟩ := (q.reads_on h0 hq hsq hinner.left_of_append).1 hturn
    exact (rest.reads_on h0 hr hsr hinner.right_of_append.tail).2 hrest (.group o x c)
      ⟨ho, hp, hc⟩ hv
  | .bracket none _ (.more ..) _ _, _, ⟨⟨_, h, _⟩, _⟩, _ => by cases h
  | .bracket (some f) o inner c rest, ⟨hf, ho, hi, hc, hr⟩, ⟨⟨hne, hcount⟩, hsi, hsr⟩, hd => by
    have hk : f.kind = .call := hf f rfl
    rw [Phrase.tokens, Option.toList_some, List.cons_append, List.nil_append] at hd ⊢
    have hinner := (noDangling_cons.1 (noDangling_cons.1 hd).2).2
    simp only [Turn.after, ho, hk]
    refine ⟨fun h => ?_, nofun⟩
    have hterm : ∃ t : Term, t.Proper ∧ t.Valid operators limit ∧
        t.then rest = .bracket (some f) o inner c rest := by
      by_cases hbare : inner = .last .nil
      · subst hbare
        exact ⟨.bare f o c, ⟨hk, ho, hc⟩, h0, rfl⟩
      · rw [Phrases.arguments_of_ne hbare] at hne
        obtain ⟨as, rfl, hp, hv⟩ := inner.reads_on h0 hi hsi hne hc hinner h
        rw [as.length_arguments] at hcount
        have hlimit : (as.count : Int) ≤ limit := hcount.elim (fun h => by omega) id
        exact ⟨.call f o as c, ⟨hk, ho, hp, hc⟩, ⟨hlimit, hv⟩, rfl⟩
    obtain ⟨t, hp, hv, hthen⟩ := hterm
    obtain ⟨_, -, -, hrest⟩ := Turn.after_close hc h
    rw [← hthen]
    exact (rest.reads_on h0 hr hsr hinner.right_of_append.tail).2 hrest t hp hv

/-- The arguments in the brackets of a call are expressions. -/
theorem Phrases.reads_on (h0 : 0 ≤ limit) {c : Token} {ys : List Token} {last : Turn} :
    (ps : Phrases) → ps.Matched → ps.Sound operators limit →
      (∀ p ∈ ps.head :: ps.tail, p ≠ .nil) → c.kind = .closeBracket →
      NoDangling (ps.tokens ++ c :: ys) → Turn.value.after (ps.tokens ++ c :: ys) = some last →
      ∃ as : Arguments, as.toPhrases = ps ∧ as.Proper ∧ as.Valid operators limit
  | .last p, hm, hs, hne, hc, hd, h => by
    obtain ⟨hturn, -⟩ := Phrase.ends_before_close hm (hne p List.mem_cons_self) hc hd h
    obtain ⟨x, rfl, hp, hv⟩ := (p.reads_on h0 hm hs hd.left_of_append).1 hturn
    exact ⟨.last x, rfl, hp, hv⟩
  | .more p s rest, ⟨hm, hk, hr⟩, ⟨hs, hsr⟩, hne, hc, hd, h => by
    rw [Phrases.tokens, List.append_assoc, List.cons_append] at hd h
    rw [Turn.after_append, Option.bind_eq_some_iff] at h
    obtain ⟨turn, hturn, h⟩ := h
    rw [Turn.after, hk] at h
    -- A separator may come only where an operator is due.
    cases turn with
    | value | bracket => cases h
    | operator =>
      obtain ⟨x, rfl, hp, hv⟩ := (p.reads_on h0 hm hs hd.left_of_append).1 hturn
      obtain ⟨as, rfl, ha, hva⟩ := rest.reads_on h0 hr hsr
        (fun q hq => hne q (List.mem_cons_of_mem _ hq)) hc hd.right_of_append.tail h
      exact ⟨.more x s as, rfl, ⟨hp, hk, ha⟩, ⟨hv, hva⟩⟩

end

/-! ## Texts -/

namespace Engine

variable {e : Engine}

/-- **What a text compiles to is complete exactly if no operator is before a closing bracket**, and
then its evaluation may fail, but not for want of operands nor for what is left on the stack. -/
theorem complete_iff_noDangling (hregistered : e.Registered) (hargs : 0 ≤ e.limits.functionArgs)
    {text : String} (hne : text ≠ "") {tokens : List Token}
    (htokens : e.tokenize text = .ok tokens) {source : Option String} {c : Compile.Compiled}
    (hc : e.compile .empty tokens m.name source = .ok c) :
    (Complete m (Sheet.empty.attachAll c.attached) c.listing ↔ NoDangling tokens) ∧
      (NoDangling tokens → ∀ draws source failure,
        e.evaluateListing draws (Sheet.empty.attachAll c.attached) c.listing m.name source
          = .error failure → failure.malformed = false) := by
  have hgrammar := hregistered.readsArithmetic
  obtain ⟨hturns, hdistinct⟩ := hgrammar.tokenize htokens
  have hends := hgrammar.tokenize_ends hne htokens
  obtain ⟨-, p, rfl, hmatched, hsound, rfl⟩ := compile_ok_iff.1 hc
  have hentries := Phrase.args?_attachAll (m := m) .empty hmatched hsound
    (Token.nodup_calls hdistinct)
  have hcomplete : NoDangling p.tokens → Complete m
      (Sheet.empty.attachAll (p.entries m e.registries.operators))
      (p.listing m e.registries.operators) := by
    intro hd
    obtain ⟨x, rfl, hp, hv⟩ := (p.reads_on hargs hmatched hsound hd).1 hends
    rw [Expression.listing_toPhrase hp hv]
    rw [x.tokens_toPhrase] at hdistinct
    exact Tree.complete_listing (x.proper_tree _ hp) (Expression.attached .empty hp hv hdistinct)
  refine ⟨⟨fun h => ?_, hcomplete⟩, fun hd draws source failure hfailure => ?_⟩
  · obtain ⟨x, rfl, hp, -⟩ :=
      Phrase.isExpression_of_complete hargs hmatched hsound hentries h hturns
    rw [x.tokens_toPhrase]
    exact x.noDangling hp
  · rw [evaluateListing_name] at hfailure
    exact (hcomplete hd).not_malformed hfailure

/-- What `(1+2)` compiles to is complete. -/
theorem complete_sum : ∃ tokens c, standard.tokenize "(1+2)" = .ok tokens ∧
    standard.compile .empty tokens "rpn" none = .ok c ∧
    Complete .rpn (Sheet.empty.attachAll c.attached) c.listing := by
  let tokens : List Token := [⟨.openBracket, "(", 0, 0⟩, ⟨.number, "1", 1, 1⟩,
    ⟨.operator, "+", 2, 2⟩, ⟨.number, "2", 3, 3⟩, ⟨.closeBracket, ")", 4, 4⟩]
  have htokens : standard.tokenize "(1+2)" = .ok tokens := toOption_eq_some.1 (by decide +kernel)
  obtain ⟨c, hc⟩ : ∃ c, standard.compile .empty tokens Mode.rpn.name none = .ok c := ⟨_, rfl⟩
  have hd : NoDangling tokens := by
    unfold NoDangling
    decide
  exact ⟨tokens, c, htokens, hc,
    (complete_iff_noDangling ⟨.standard, [], rfl⟩ (by decide) (by decide) htokens hc).1.2 hd⟩

/-- `(1+)` is read and compiled, but not to a complete listing, and its evaluation misses an
operand: in both notations. -/
theorem compiled_incomplete : ∃ tokens, standard.tokenize "(1+)" = .ok tokens ∧
    ∀ m : Mode, ∃ c failure, standard.compile .empty tokens m.name none = .ok c ∧
      ¬ Complete m (Sheet.empty.attachAll c.attached) c.listing ∧
      standard.evaluateListing (fun _ _ => 0) (Sheet.empty.attachAll c.attached) c.listing m.name
        none = .error failure ∧ failure.malformed = true := by
  let one : Token := ⟨.number, "1", 1, 1⟩
  let plus : Token := ⟨.operator, "+", 2, 2⟩
  let tokens := [⟨.openBracket, "(", 0, 0⟩, one, plus, ⟨.closeBracket, ")", 3, 3⟩]
  refine ⟨tokens, toOption_eq_some.1 (by decide +kernel), fun m => ?_⟩
  let listing := m.inOrder [plus, one]
  have hc : standard.compile .empty tokens m.name none = .ok ⟨listing, [], true⟩ := by
    cases m <;> rfl
  have hincomplete : ¬ Complete m .empty listing := by
    intro h
    have hheight := (complete_iff.1 h).1
    cases m <;> cases hheight
  have hfails : (match standard.evaluateListing (fun _ _ => 0) .empty listing m.name none with
      | .ok _ => false
      | .error failure => failure.malformed) = true := by
    cases m <;> decide +kernel
  cases heval : standard.evaluateListing (fun _ _ => 0) .empty listing m.name none with
  | ok value => simp [heval] at hfails
  | error failure => exact ⟨_, failure, hc, hincomplete, heval, by simpa [heval] using hfails⟩

end Engine

end Polish
