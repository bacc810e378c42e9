import Polish.Proofs.Pattern.Symbols

/-!
# Patterns and blanks

Some blanks are put into a text behind the match of a pattern.  If the pattern takes no blanks
itself, it still has the same match, and where it had none it has none now.  The matcher may have
tried more of the text than it took in the end, so this is shown for each step of it, with any goal
behind.

* `Spread` — a text with blanks put in;
* `Regex.Keeps` — the answers for the two texts: what failed still fails, and what left a given rest
  leaves that rest, spread;
* `Regex.Solid` — a pattern takes no blanks and keeps its answers, with one lemma for each way of
  making a pattern;
* `Pattern.rest?_spread` and `Pattern.rest?_spread_eq_none` — what this means for a match.

## How the proof goes

The induction is on the pattern, and the goal is what has to be general.  A goal is called at places
before the blanks and behind them.  Before them the texts have the same characters left up to the
place of the blanks; behind them it is only known that the one is a spread of the other (`At`).  An
answer that leaves more than `rest` or less is not compared, since it is none of the match that is
asked about.

A lookahead is not solid for the reason that its pattern is.  It is asked whether it succeeds, and
it has to be known that blanks make no difference to that (`Solid.ahead`).
-/

set_option autoImplicit false

namespace Polish

open Text (isBlank)

/-- The second text is the first one with blanks put in. -/
inductive Spread : List Char → List Char → Prop
  | nil : Spread [] []
  | keep (c : Char) {t t' : List Char} (h : Spread t t') : Spread (c :: t) (c :: t')
  | blank {b : Char} {t t' : List Char} (hb : isBlank b = true) (h : Spread t t') :
    Spread t (b :: t')

namespace Spread

variable {s t t' : List Char}

theorem append_left (xs : List Char) (h : Spread t t') : Spread (xs ++ t) (xs ++ t') := by
  induction xs with
  | nil => exact h
  | cons c xs ih => exact .keep c ih

theorem append_blanks {blanks : List Char} (hblanks : ∀ b ∈ blanks, isBlank b = true)
    (h : Spread t t') : Spread t (blanks ++ t') := by
  induction blanks with
  | nil => exact h
  | cons b blanks ih =>
    exact .blank (hblanks b List.mem_cons_self)
      (ih fun d hd => hblanks d (List.mem_cons_of_mem b hd))

/-- A spread text begins as the text does or with a blank. -/
theorem head_cases {c : Char} (h : Spread (c :: t) s) :
    ∃ d s', s = d :: s' ∧ (d = c ∨ isBlank d = true) := by
  cases h with
  | keep => exact ⟨c, _, rfl, .inl rfl⟩
  | blank hb => exact ⟨_, _, rfl, .inr hb⟩

/-- The empty text is spread to blanks. -/
theorem isBlank_of_nil (h : Spread [] s) : ∀ b ∈ s, isBlank b = true := by
  generalize hempty : ([] : List Char) = empty at h
  induction h with
  | nil => nofun
  | keep => cases hempty
  | blank hb _ ih =>
    intro d hd
    rcases List.mem_cons.1 hd with rfl | hd
    · exact hb
    · exact ih hempty d hd

end Spread

namespace Regex

variable {rest rest' : List Char}

/-! ## Answers that are kept -/

/-- What failed still fails, and what left `rest` leaves `rest'`.  Of other answers nothing is
said. -/
structure Keeps (rest rest' : List Char) (answer answer' : Option (List Char)) : Prop where
  fails : answer = none → answer' = none
  leaves : answer = some rest → answer' = some rest'

theorem Keeps.or {a a' b b' : Option (List Char)} (ha : Keeps rest rest' a a')
    (hb : Keeps rest rest' b b') : Keeps rest rest' (a.or b) (a'.or b') where
  fails h := by
    obtain ⟨hnone, hnone'⟩ := Option.or_eq_none_iff.1 h
    rw [ha.fails hnone, hb.fails hnone', Option.none_or]
  leaves h := by
    rcases Option.or_eq_some_iff.1 h with hsome | ⟨hnone, hsome⟩
    · rw [ha.leaves hsome, Option.some_or]
    · rw [ha.fails hnone, hb.leaves hsome, Option.none_or]

/-- Two places of the texts: what is left of the one is spread to what is left of the other, and
nothing has been put in before `rest`. -/
structure At (rest rest' s s' : List Char) : Prop where
  spread : Spread s s'
  before : rest.length ≤ s.length → ∃ xs, s = xs ++ rest ∧ s' = xs ++ rest'

/-- The two texts are at the same character, or the second one is at a blank that has been put in
behind `rest`. -/
theorem At.cons {c : Char} {t s' : List Char} (h : At rest rest' (c :: t) s')
    (hc : isBlank c = false) :
    (∃ t', s' = c :: t' ∧ At rest rest' t t') ∨
      ∃ b t', s' = b :: t' ∧ isBlank b = true ∧ t.length < rest.length := by
  -- Before `rest`, the texts begin with the same character.
  have hbefore (hlength : rest.length ≤ t.length) :
      ∃ xs, t = xs ++ rest ∧ s' = c :: (xs ++ rest') := by
    obtain ⟨xs, hs, hs'⟩ := h.before (Nat.le_succ_of_le hlength)
    cases xs with
    | nil =>
      rw [List.nil_append] at hs
      rw [← hs, List.length_cons] at hlength
      omega
    | cons d xs =>
      obtain ⟨rfl, rfl⟩ := List.cons.inj hs
      exact ⟨xs, rfl, hs'⟩
  cases h.spread with
  | @keep _ _ t' hspread =>
    refine .inl ⟨t', rfl, hspread, fun hlength => ?_⟩
    obtain ⟨xs, ht, hs'⟩ := hbefore hlength
    exact ⟨xs, ht, (List.cons.inj hs').2⟩
  | @blank b _ t' hb =>
    refine .inr ⟨b, t', rfl, hb, Nat.lt_of_not_le fun hlength => ?_⟩
    obtain ⟨xs, -, hs'⟩ := hbefore hlength
    obtain ⟨rfl, -⟩ := List.cons.inj hs'
    rw [hb] at hc
    cases hc

/-- Goals that keep their answers and that leave no more than they were given. -/
structure GoalsKeep (rest rest' : List Char) (k k' : Goal) : Prop where
  keeps : ∀ {s s'}, At rest rest' s s' → Keeps rest rest' (k s) (k' s')
  shrinks : ∀ {s u}, k s = some u → u.length ≤ s.length

/-! ## Solid patterns -/

/-- The pattern takes no blanks, and it keeps its answers when blanks are put in behind its
match. -/
structure Solid (ignoreCase : Bool) (r : Regex) : Prop where
  takes : ∀ {s k u}, r.run ignoreCase s k = some u →
    ∃ xs t, s = xs ++ t ∧ (∀ c ∈ xs, isBlank c = false) ∧ k t = some u
  keeps : ∀ {rest rest' k k' s s'}, GoalsKeep rest rest' k k' → At rest rest' s s' →
    Keeps rest rest' (r.run ignoreCase s k) (r.run ignoreCase s' k')

namespace Solid

variable {ignoreCase : Bool} {r first second : Regex}

/-- What comes behind a pattern is a goal for what comes before it. -/
theorem goals (h : Solid ignoreCase r) {k k' : Goal} (hk : GoalsKeep rest rest' k k') :
    GoalsKeep rest rest' (fun t => r.run ignoreCase t k) (fun t => r.run ignoreCase t k') where
  keeps hat := h.keeps hk hat
  shrinks hr := by
    obtain ⟨t, ht, hkt⟩ := takesFromFront_run ignoreCase r _ k _ hr
    exact Nat.le_trans (hk.shrinks hkt) ht.length_le

theorem seq (h : Solid ignoreCase first) (h' : Solid ignoreCase second) :
    Solid ignoreCase (.seq first second) where
  takes hr := by
    obtain ⟨xs, t, rfl, hxs, ht⟩ := h.takes hr
    obtain ⟨ys, u, rfl, hys, hu⟩ := h'.takes ht
    refine ⟨xs ++ ys, u, (List.append_assoc ..).symm, fun c hc => ?_, hu⟩
    exact (List.mem_append.1 hc).elim (hxs c) (hys c)
  keeps hk hat := h.keeps (h'.goals hk) hat

theorem empty : Solid ignoreCase .empty where
  takes hr := ⟨[], _, rfl, nofun, hr⟩
  keeps hk hat := hk.keeps hat

theorem sequence {rs : List Regex} (h : ∀ r ∈ rs, Solid ignoreCase r) :
    Solid ignoreCase (Regex.sequence rs) := by
  induction rs with
  | nil => exact empty
  | cons r rs ih =>
    have hr := h r List.mem_cons_self
    have hrs := ih fun r' hr' => h r' (List.mem_cons_of_mem r hr')
    cases rs with
    | nil => exact hr
    | cons => exact hr.seq hrs

/-- A pattern may look ahead as long as blanks do not change what it sees. -/
theorem ahead (h : ∀ {t t'}, Spread t t' →
    (r.run ignoreCase t some).isSome = (r.run ignoreCase t' some).isSome) :
    Solid ignoreCase (.ahead r) where
  takes hr := ⟨[], _, rfl, List.forall_mem_nil _, (Option.ite_none_right_eq_some.1 hr).2⟩
  keeps hk hat := by
    rw [run_ahead, run_ahead, h hat.spread]
    split
    · exact hk.keeps hat
    · exact ⟨fun _ => rfl, nofun⟩

theorem optional (h : Solid ignoreCase r) : Solid ignoreCase (Regex.optional r) where
  takes hr := by
    rw [run_optional, Option.or_eq_some_iff] at hr
    rcases hr with hr | ⟨-, hr⟩
    · exact h.takes hr
    · exact ⟨[], _, rfl, nofun, hr⟩
  keeps hk hat := by
    rw [run_optional, run_optional]
    exact (h.keeps hk hat).or (hk.keeps hat)

end Solid

namespace Single

variable {ignoreCase : Bool} {r : Regex} {p : Char → Bool}

variable {rest rest' s s' : List Char}

/-- At two places of the texts, neither has a character that satisfies the pattern, or both have the
same one, or the second one has a blank in its place that has been put in behind `rest`. -/
theorem cases_at (hp : ∀ c, p c = true → isBlank c = false) (h : At rest rest' s s') :
    ((∀ c ∈ s.head?, p c = false) ∧ ∀ c ∈ s'.head?, p c = false) ∨
      (∃ c t t', s = c :: t ∧ s' = c :: t' ∧ p c = true ∧ At rest rest' t t') ∨
      ∃ c t, s = c :: t ∧ p c = true ∧ t.length < rest.length ∧ ∀ d ∈ s'.head?, p d = false := by
  have hblank (b : Char) (hb : isBlank b = true) : p b = false := by
    rw [Bool.eq_false_iff]
    intro hpb
    rw [hp b hpb] at hb
    cases hb
  cases s with
  | nil => exact .inl ⟨nofun, fun b hb => hblank b
      (h.spread.isBlank_of_nil b (List.mem_of_mem_head? hb))⟩
  | cons c t =>
    by_cases hc : p c = true
    · rcases h.cons (hp c hc) with ⟨t', rfl, hat⟩ | ⟨b, t', rfl, hb, hless⟩
      · exact .inr (.inl ⟨c, t, t', rfl, rfl, hc, hat⟩)
      · exact .inr (.inr ⟨c, t, rfl, hc, hless, by rintro _ ⟨⟩; exact hblank b hb⟩)
    · obtain ⟨d, t', rfl, hd⟩ := h.spread.head_cases
      refine .inl ⟨by rintro _ ⟨⟩; simpa using hc, ?_⟩
      rintro _ ⟨⟩
      rcases hd with rfl | hd
      · simpa using hc
      · exact hblank d hd

/-- One character that is not blank. -/
theorem solid (h : Single ignoreCase p r) (hp : ∀ c, p c = true → isBlank c = false) :
    Solid ignoreCase r where
  takes hr := by
    obtain ⟨c, t, rfl, hc, hk⟩ := h.run_eq_some hr
    exact ⟨[c], t, rfl, fun d hd => List.mem_singleton.1 hd ▸ hp c hc, hk⟩
  keeps {rest rest' k k' s s'} hk hat := by
    rcases cases_at hp hat with ⟨hs, hs'⟩ | ⟨c, t, t', rfl, rfl, hc, hat'⟩ |
      ⟨c, t, rfl, hc, hless, hs'⟩
    · rw [h.run_eq_none hs, h.run_eq_none hs']
      exact ⟨fun _ => rfl, nofun⟩
    · rw [h.2, h.2, if_pos hc, if_pos hc]
      exact hk.keeps hat'
    · rw [h.2, if_pos hc, h.run_eq_none hs']
      exact ⟨fun _ => rfl, fun hleft => absurd (hk.shrinks hleft) (Nat.not_le.2 hless)⟩

/-- Any number of characters that are not blank. -/
theorem solid_many (h : Single ignoreCase p r) (hp : ∀ c, p c = true → isBlank c = false) :
    Solid ignoreCase (many r) where
  takes hr := by
    obtain ⟨xs, t, rfl, hxs, hk⟩ := h.run_many_eq_some hr
    exact ⟨xs, t, rfl, fun c hc => hp c (hxs c hc), hk⟩
  keeps {rest rest' k k' s s'} hk hat := by
    -- Where a blank has been put in, what the first matcher goes on to find is not `rest`.
    have hshrinks {t u : List Char} (hu : (many r).run ignoreCase t k = some u) :
        u.length ≤ t.length := by
      obtain ⟨v, hv, hkv⟩ := takesFromFront_run ignoreCase (many r) t k u hu
      exact Nat.le_trans (hk.shrinks hkv) hv.length_le
    induction s generalizing s' with
    | nil =>
      rcases cases_at hp hat with ⟨hs, hs'⟩ | ⟨c, t, t', heq, -⟩ | ⟨c, t, heq, -⟩
      · rw [h.run_many_of_head hs, h.run_many_of_head hs']
        exact hk.keeps hat
      · cases heq
      · cases heq
    | cons c t ih =>
      rcases cases_at hp hat with ⟨hs, hs'⟩ | ⟨d, u, t', heq, rfl, hd, hat'⟩ |
        ⟨d, u, heq, hd, hless, hs'⟩
      · rw [h.run_many_of_head hs, h.run_many_of_head hs']
        exact hk.keeps hat
      · obtain ⟨rfl, rfl⟩ := List.cons.inj heq
        rw [h.run_many_cons, h.run_many_cons, if_pos hd, if_pos hd]
        exact (ih hat').or (hk.keeps hat)
      · obtain ⟨rfl, rfl⟩ := List.cons.inj heq
        rw [h.run_many_cons, if_pos hd, h.run_many_of_head hs']
        have hkeeps := hk.keeps hat
        refine ⟨fun hnone => hkeeps.fails (Option.or_eq_none_iff.1 hnone).2, fun hleft => ?_⟩
        rcases Option.or_eq_some_iff.1 hleft with hsome | ⟨-, hsome⟩
        · exact absurd (hshrinks hsome) (Nat.not_le.2 hless)
        · exact hkeeps.leaves hsome

/-- Some characters that are not blank, and at least one of them. -/
theorem solid_atLeastOne (h : Single ignoreCase p r) (hp : ∀ c, p c = true → isBlank c = false) :
    Solid ignoreCase (atLeastOne r) :=
  have hboth : Solid ignoreCase (.seq r (many r)) := (h.solid hp).seq (h.solid_many hp)
  ⟨hboth.takes, hboth.keeps⟩

end Single

theorem solid_literal {text : List Char} (htext : ∀ c ∈ text, isBlank c = false) :
    Solid false (literal text) := by
  refine Solid.sequence fun r hr => ?_
  obtain ⟨c, hc, rfl⟩ := List.mem_map.1 hr
  exact (single_char c).solid fun d hd => beq_iff_eq.1 hd ▸ htext c hc

/-- A choice between symbols without blanks. -/
theorem Chooses.solid {r : Regex} {symbols : List String} (h : r.Chooses symbols)
    (hsymbols : ∀ symbol ∈ symbols, ∀ c ∈ symbol.toList, isBlank c = false) : Solid false r := by
  have hrun (s : List Char) (k : Goal) : r.run false s k
      = symbols.findSome? fun symbol => (literal symbol.toList).run false s k := by
    simp only [h s k, run_literal, String.length_toList]
  constructor
  · intro s k u hr
    rw [hrun] at hr
    obtain ⟨symbol, hsymbol, hr⟩ := List.exists_of_findSome?_eq_some hr
    exact (solid_literal (hsymbols symbol hsymbol)).takes hr
  · intro rest rest' k k' s s' hk hat
    rw [hrun, hrun]
    clear h hrun
    induction symbols with
    | nil => exact ⟨fun _ => rfl, nofun⟩
    | cons symbol symbols ih =>
      have hfirst := (solid_literal (hsymbols symbol List.mem_cons_self)).keeps hk hat
      have hothers := ih fun other hother => hsymbols other (List.mem_cons_of_mem symbol hother)
      rw [← List.singleton_append, List.findSome?_append, List.findSome?_append,
        List.findSome?_singleton, List.findSome?_singleton]
      exact hfirst.or hothers

theorem goalsKeep_some (rest rest' : List Char) : GoalsKeep rest rest' some some where
  keeps hat := by
    refine ⟨nofun, fun heq => ?_⟩
    obtain rfl := Option.some.inj heq
    obtain ⟨xs, hs, rfl⟩ := hat.before (Nat.le_refl _)
    rw [List.self_eq_append_left.1 hs, List.nil_append]
  shrinks heq := Nat.le_of_eq (congrArg List.length (Option.some.inj heq)).symm

end Regex

/-! ## Matches -/

namespace Pattern

open Regex (Solid)

variable {p : Pattern} {xs rest rest' t t' : List Char}

/-- **A match stays as it is** if blanks are put in behind it. -/
theorem rest?_spread (h : Solid p.ignoreCase p.regex) (hrest : p.rest? (xs ++ rest) = some rest)
    (hspread : Spread rest rest') : p.rest? (xs ++ rest') = some rest' :=
  (h.keeps (Regex.goalsKeep_some rest rest')
    ⟨hspread.append_left xs, fun _ => ⟨xs, rfl, rfl⟩⟩).leaves hrest

/-- **Blanks make no match** where there was none. -/
theorem rest?_spread_eq_none (h : Solid p.ignoreCase p.regex) (hnone : p.rest? t = none)
    (hspread : Spread t t') : p.rest? t' = none := by
  -- No place of the text comes before a rest that is longer than the text.
  have hat : Regex.At ('x' :: t) [] t t' :=
    ⟨hspread, fun hlength => absurd hlength (Nat.not_le.2 (Nat.lt_succ_self _))⟩
  exact (h.keeps (Regex.goalsKeep_some _ _) hat).fails hnone

theorem exists_of_rest? (h : Solid p.ignoreCase p.regex) (hrest : p.rest? t = some rest) :
    ∃ xs, t = xs ++ rest ∧ ∀ c ∈ xs, isBlank c = false := by
  obtain ⟨xs, u, rfl, hxs, hu⟩ := h.takes hrest
  obtain rfl := Option.some.inj hu
  exact ⟨xs, rfl, hxs⟩

end Pattern

end Polish
