import Polish.Pattern.Basic

/-!
# How the matcher runs

Equations for the patterns that lexemes are made of, so that proofs about rules do not open the
matcher.

A pattern is `Single p` if it takes one character that satisfies `p`.  For a repetition of such a
pattern the rounds of the matcher turn into a recursion on the text (`Single.run_many_cons`), and
two facts say all that is needed:

* `Single.run_many_append` — it takes the whole of a run of such characters, if the rest of the
  pattern can go on behind it;
* `Single.run_many_eq_some` — whatever it takes is such a run.

The same two facts hold of `atLeastOne`.  A pattern that is `optional` is tried first, and then the
matcher goes on without it.

## Why it is done with goals

A match is a run with a goal, which stands for the rest of the pattern, and a repetition is given up
to that goal character by character.  What comes out of a repetition can therefore not be said
without the goal.  Both facts on repetitions leave it open: the one asks only that it succeeds
behind the longest run of characters, the other concludes that it has succeeded behind some run.
-/

set_option autoImplicit false

namespace Polish.Regex

variable {ignoreCase : Bool} {r first second : Regex} {p : Char → Bool} {s t xs rest : List Char}
  {k : Goal}

/-! ## Sequences and choices -/

theorem run_sequence_cons {rs : List Regex} : (sequence (r :: rs)).run ignoreCase s k
    = r.run ignoreCase s fun t => (sequence rs).run ignoreCase t k := by
  cases rs <;> rfl

theorem run_alt : (Regex.alt first second).run ignoreCase s k
    = (first.run ignoreCase s k).or (second.run ignoreCase s k) := by
  rw [run, Option.orElse_eq_orElse, Option.orElse_eq_or]

/-- The patterns of a choice are tried in their order. -/
theorem run_choice {rs : List Regex} (h : rs ≠ []) :
    (choice rs).run ignoreCase s k = rs.findSome? fun r => r.run ignoreCase s k := by
  induction rs with
  | nil => exact absurd rfl h
  | cons r rs ih =>
    cases rs with
    | nil => simp [choice]
    | cons r' rs =>
      rw [List.findSome?_cons, ← ih (by simp), choice, run_alt]
      · cases r.run ignoreCase s k <;> rfl
      · simp

theorem run_ahead : (ahead r).run ignoreCase s k
    = if (r.run ignoreCase s some).isSome then k s else none := rfl

/-! ## Single characters -/

/-- The pattern takes one character that satisfies `p`. -/
def Single (ignoreCase : Bool) (p : Char → Bool) (r : Regex) : Prop :=
  (∀ k, r.run ignoreCase [] k = none) ∧
    ∀ c t k, r.run ignoreCase (c :: t) k = if p c then k t else none

theorem single_oneOf {negated : Bool} {items : List ClassItem}
    (h : ∀ c, ClassItem.accepts ignoreCase negated items c = p c) :
    Single ignoreCase p (.oneOf negated items) :=
  ⟨fun _ => rfl, fun c t k => by rw [← h c, run]⟩

/-- Where letter case counts, a named class takes its characters. -/
theorem single_category (kind : Category) : Single false kind.holds (category kind) :=
  single_oneOf fun c => by simp [ClassItem.accepts, ClassItem.holds]

/-- Where letter case counts, the pattern of some characters takes one of them. -/
theorem single_oneOfChars (cs : List Char) :
    Single false (fun c => decide (c ∈ cs)) (oneOfChars cs) :=
  single_oneOf fun c => by
    rw [Bool.eq_iff_iff]
    simp [ClassItem.accepts, ClassItem.holds]

theorem single_char (d : Char) : Single false (d == ·) (char d) :=
  single_oneOf fun c => by simp [ClassItem.accepts, ClassItem.holds]

namespace Single

theorem run_eq_some (h : Single ignoreCase p r) {u : List Char}
    (hr : r.run ignoreCase s k = some u) : ∃ c t, s = c :: t ∧ p c = true ∧ k t = some u := by
  cases s with
  | nil =>
    rw [h.1] at hr
    cases hr
  | cons c t =>
    rw [h.2] at hr
    split at hr
    · next hc => exact ⟨c, t, rfl, hc, hr⟩
    · cases hr

theorem run_eq_none (h : Single ignoreCase p r) (hs : ∀ c ∈ s.head?, p c = false) :
    r.run ignoreCase s k = none := by
  cases s with
  | nil => exact h.1 k
  | cons c t => rw [h.2, if_neg (by simp [hs c rfl])]

end Single

@[simp] theorem run_char_cons {d : Char} : (char d).run false (d :: t) k = k t := by
  rw [(single_char d).2, if_pos (by simp)]

theorem run_char_eq_none {d : Char} (h : ∀ c ∈ s.head?, c ≠ d) :
    (char d).run false s k = none :=
  (single_char d).run_eq_none fun c hc => beq_eq_false_iff_ne.2 (h c hc).symm

/-! ## Repetitions -/

namespace Single

theorem upTo_nil (h : Single ignoreCase p r) (rounds : Nat) :
    upTo (r.run ignoreCase) rounds [] k = k [] := by
  cases rounds with
  | zero => rfl
  | succ rounds =>
    rw [upTo, h.1]
    rfl

theorem run_many_nil (h : Single ignoreCase p r) : (many r).run ignoreCase [] k = k [] :=
  h.upTo_nil _

/-- A repetition takes another character and goes on, or it stops. -/
theorem run_many_cons (h : Single ignoreCase p r) (c : Char) :
    (many r).run ignoreCase (c :: t) k
      = if p c then ((many r).run ignoreCase t k).or (k (c :: t)) else k (c :: t) := by
  rw [many, run, exactly]
  simp only [List.length_cons]
  rw [upTo, h.2, Option.orElse_eq_orElse, Option.orElse_eq_or]
  by_cases hc : p c = true
  · rw [if_pos hc, if_pos hc, if_pos (by simp), run, exactly]
  · rw [if_neg hc, if_neg hc, Option.none_or]

/-- Where no such character comes, nothing is taken. -/
theorem run_many_of_head (h : Single ignoreCase p r) (hs : ∀ c ∈ s.head?, p c = false) :
    (many r).run ignoreCase s k = k s := by
  cases s with
  | nil => exact h.run_many_nil
  | cons c t => rw [h.run_many_cons, if_neg (by simp [hs c rfl])]

/-- With nothing behind it, a repetition takes all that it can. -/
theorem run_many_some (h : Single ignoreCase p r) :
    (many r).run ignoreCase s some = some (s.dropWhile p) := by
  induction s with
  | nil => exact h.run_many_nil
  | cons c t ih =>
    rw [h.run_many_cons, List.dropWhile_cons, ih]
    split <;> rfl

theorem run_many_append (h : Single ignoreCase p r) (hxs : ∀ c ∈ xs, p c = true)
    (hrest : ∀ c ∈ rest.head?, p c = false) {u : List Char} (hk : k rest = some u) :
    (many r).run ignoreCase (xs ++ rest) k = some u := by
  induction xs with
  | nil => rw [List.nil_append, h.run_many_of_head hrest, hk]
  | cons c xs ih =>
    rw [List.cons_append, h.run_many_cons, if_pos (hxs c List.mem_cons_self),
      ih fun d hd => hxs d (List.mem_cons_of_mem c hd), Option.some_or]

theorem run_many_eq_some (h : Single ignoreCase p r) {u : List Char}
    (hr : (many r).run ignoreCase s k = some u) :
    ∃ xs rest, s = xs ++ rest ∧ (∀ c ∈ xs, p c = true) ∧ k rest = some u := by
  induction s with
  | nil =>
    rw [h.run_many_nil] at hr
    exact ⟨[], [], rfl, by simp, hr⟩
  | cons c t ih =>
    rw [h.run_many_cons] at hr
    by_cases hc : p c = true
    · rw [if_pos hc, Option.or_eq_some_iff] at hr
      rcases hr with hr | ⟨-, hr⟩
      · obtain ⟨xs, rest, rfl, hxs, hk⟩ := ih hr
        refine ⟨c :: xs, rest, rfl, fun d hd => ?_, hk⟩
        rcases List.mem_cons.1 hd with rfl | hd
        · exact hc
        · exact hxs d hd
      · exact ⟨[], c :: t, rfl, by simp, hr⟩
    · rw [if_neg hc] at hr
      exact ⟨[], c :: t, rfl, by simp, hr⟩

theorem run_atLeastOne (h : Single ignoreCase p r) (c : Char) :
    (atLeastOne r).run ignoreCase (c :: t) k
      = if p c then (many r).run ignoreCase t k else none := by
  rw [atLeastOne, run, exactly, h.2]
  rfl

theorem run_atLeastOne_append (h : Single ignoreCase p r) (hne : xs ≠ [])
    (hxs : ∀ c ∈ xs, p c = true) (hrest : ∀ c ∈ rest.head?, p c = false) {u : List Char}
    (hk : k rest = some u) : (atLeastOne r).run ignoreCase (xs ++ rest) k = some u := by
  obtain ⟨c, xs, rfl⟩ := List.exists_cons_of_ne_nil hne
  rw [List.cons_append, h.run_atLeastOne, if_pos (hxs c List.mem_cons_self)]
  exact h.run_many_append (fun d hd => hxs d (List.mem_cons_of_mem c hd)) hrest hk

theorem run_atLeastOne_eq_some (h : Single ignoreCase p r) {u : List Char}
    (hr : (atLeastOne r).run ignoreCase s k = some u) :
    ∃ xs rest, xs ≠ [] ∧ s = xs ++ rest ∧ (∀ c ∈ xs, p c = true) ∧ k rest = some u := by
  cases s with
  | nil =>
    rw [atLeastOne, run, exactly, h.1] at hr
    cases hr
  | cons c t =>
    rw [h.run_atLeastOne] at hr
    split at hr
    · next hc =>
      obtain ⟨xs, rest, rfl, hxs, hk⟩ := h.run_many_eq_some hr
      refine ⟨c :: xs, rest, by simp, rfl, fun d hd => ?_, hk⟩
      rcases List.mem_cons.1 hd with rfl | hd
      · exact hc
      · exact hxs d hd
    · cases hr

end Single

/-! ## Optional patterns -/

/-- An optional pattern is tried first; then the matcher goes on without it. -/
theorem run_optional : (optional r).run ignoreCase s k = (r.run ignoreCase s k).or (k s) := by
  rw [optional, run, exactly]
  cases s with
  | nil =>
    -- Nothing is tried at the end of a text, where all that could be taken is nothing.
    have hnone : (r.run ignoreCase [] k).or (k []) = k [] := by
      cases hr : r.run ignoreCase [] k with
      | none => rfl
      | some u =>
        obtain ⟨t, ht, hk⟩ := takesFromFront_run ignoreCase r [] k u hr
        rw [List.suffix_nil.1 ht] at hk
        rw [hk, Option.some_or]
    rw [hnone]
    rfl
  | cons c t =>
    simp only [Nat.sub_zero, List.length_cons]
    rw [Nat.min_eq_left (by omega), upTo, Option.orElse_eq_orElse, Option.orElse_eq_or]
    simp only [upTo, ite_self]

theorem run_optional_of_some {u : List Char} (h : r.run ignoreCase s k = some u) :
    (optional r).run ignoreCase s k = some u := by
  rw [run_optional, h, Option.some_or]

theorem run_optional_of_none (h : r.run ignoreCase s k = none) :
    (optional r).run ignoreCase s k = k s := by
  rw [run_optional, h, Option.none_or]

end Polish.Regex
