import Polish.Compile.Basic

/-!
# Balanced brackets

`excess` counts the opening brackets of a token list minus the closing ones.  A list is `Balanced`
if no prefix of it closes more than it has opened and the whole of it closes everything: ordinary
bracket matching, said without any stack.

* `Balanced.exists_partner` — the bracket that a balanced list opens with has a partner, and what
  is between the two and what comes after them is balanced;
* `Balanced.partner_unique` and `Balanced.opener_unique` — there is only one such partner, looking
  from the left as well as from the right.

## How the proof goes

All is by counting along prefixes.  The partner of a bracket is the first place where more is closed
than is open (`exists_first_closing`), and of two partners the later one would have a prefix in
front of it that closes too much.
-/

set_option autoImplicit false

namespace Polish

/-! ## Counting brackets -/

/-- What a token of some kind adds to the number of open brackets. -/
def Kind.weight : Kind → Int
  | .openBracket => 1
  | .closeBracket => -1
  | _ => 0

theorem Kind.weight_eq_zero_iff {k : Kind} :
    k.weight = 0 ↔ k ≠ .openBracket ∧ k ≠ .closeBracket := by
  cases k <;> simp [Kind.weight]

/-- Opening brackets minus closing ones. -/
def excess : List Token → Int
  | [] => 0
  | token :: rest => token.kind.weight + excess rest

@[simp] theorem excess_nil : excess [] = 0 := rfl

@[simp] theorem excess_cons (token : Token) (rest : List Token) :
    excess (token :: rest) = token.kind.weight + excess rest := rfl

@[simp] theorem excess_append (xs ys : List Token) : excess (xs ++ ys) = excess xs + excess ys := by
  induction xs with
  | nil => simp
  | cons x xs ih => rw [List.cons_append, excess_cons, excess_cons, ih]; omega

/-- A list whose brackets match. -/
structure Balanced (tokens : List Token) : Prop where
  /-- Along the way, nothing is closed that is not open. -/
  prefix_nonneg : ∀ p, p <+: tokens → 0 ≤ excess p
  /-- At the end, nothing is open. -/
  excess_eq : excess tokens = 0

namespace Balanced

variable {xs ys : List Token}

theorem nil : Balanced [] :=
  ⟨fun p hp => by rw [List.prefix_nil.1 hp]; exact Int.le_refl 0, rfl⟩

/-- No suffix opens more than it closes. -/
theorem suffix_nonpos (h : Balanced (xs ++ ys)) : excess ys ≤ 0 := by
  have hp := h.prefix_nonneg xs (List.prefix_append xs ys)
  have he := h.excess_eq
  rw [excess_append] at he
  omega

/-- Balanced lists one after another are balanced. -/
theorem append (hx : Balanced xs) (hy : Balanced ys) : Balanced (xs ++ ys) := by
  refine ⟨fun p hp => ?_, by rw [excess_append, hx.excess_eq, hy.excess_eq]; rfl⟩
  obtain ⟨q, hq⟩ := hp
  rcases List.append_eq_append_iff.1 hq with ⟨as, rfl, -⟩ | ⟨bs, rfl, hb⟩
  · exact hx.prefix_nonneg p (List.prefix_append p as)
  · rw [excess_append, hx.excess_eq, Int.zero_add]
    exact hy.prefix_nonneg bs ⟨q, hb.symm⟩

/-- What follows a balanced beginning of a balanced list is balanced. -/
theorem right (h : Balanced (xs ++ ys)) (hx : excess xs = 0) : Balanced ys := by
  refine ⟨fun p hp => ?_, ?_⟩
  · have := h.prefix_nonneg (xs ++ p) ((List.prefix_append_right_inj xs).2 hp)
    rwa [excess_append, hx, Int.zero_add] at this
  · have := h.excess_eq
    rwa [excess_append, hx, Int.zero_add] at this

/-- A token that is no bracket. -/
theorem singleton {t : Token} (ht : t.kind.weight = 0) : Balanced [t] := by
  refine ⟨fun p hp => ?_, by simp [ht]⟩
  rcases List.prefix_cons_iff.1 hp with rfl | ⟨q, rfl, hq⟩
  · exact Int.le_refl 0
  · rw [List.prefix_nil.1 hq, excess_cons, ht]
    exact Int.le_refl 0

/-- A balanced list between a bracket and its partner. -/
theorem enclose {o c : Token} (ho : o.kind = .openBracket) (hx : Balanced xs)
    (hc : c.kind = .closeBracket) : Balanced (o :: (xs ++ [c])) := by
  refine ⟨fun p hp => ?_, by simp [ho, hc, hx.excess_eq, Kind.weight]⟩
  rcases List.prefix_cons_iff.1 hp with rfl | ⟨q, rfl, hq⟩
  · exact Int.le_refl 0
  · rw [excess_cons, ho]
    rcases List.prefix_concat_iff.1 hq with rfl | hq
    · simp [hc, hx.excess_eq, Kind.weight]
    · have := hx.prefix_nonneg q hq
      simp only [Kind.weight]
      omega

end Balanced

/-! ## Partners -/

/-- A list that closes more than `open` brackets beyond its own has a first token that does so. -/
theorem exists_first_closing (ts : List Token) (open' : Nat) (h : excess ts < -(open' : Int)) :
    ∃ inner c after, ts = inner ++ c :: after ∧ c.kind = .closeBracket ∧
      excess inner = -(open' : Int) ∧ ∀ p, p <+: inner → -(open' : Int) ≤ excess p := by
  -- The induction is on the list; a bracket that opens leaves one more to be closed.
  induction ts generalizing open' with
  | nil => rw [excess_nil] at h; omega
  | cons t ts ih =>
    have step (k : Nat) (hk : (k : Int) = open' + t.kind.weight) :
        ∃ inner c after, t :: ts = inner ++ c :: after ∧ c.kind = .closeBracket ∧
          excess inner = -(open' : Int) ∧ ∀ p, p <+: inner → -(open' : Int) ≤ excess p := by
      rw [excess_cons] at h
      obtain ⟨inner, c, after, rfl, hc, he, hp⟩ := ih k (by omega)
      refine ⟨t :: inner, c, after, rfl, hc, by rw [excess_cons]; omega, fun p hpre => ?_⟩
      rcases List.prefix_cons_iff.1 hpre with rfl | ⟨q, rfl, hq⟩
      · rw [excess_nil]; omega
      · have := hp q hq
        rw [excess_cons]; omega
    by_cases hcl : t.kind = .closeBracket
    · cases open' with
      | zero =>
        refine ⟨[], t, ts, rfl, hcl, rfl, fun p hp => ?_⟩
        rw [List.prefix_nil.1 hp]
        exact Int.le_refl 0
      | succ k => exact step k (by rw [hcl, Kind.weight]; omega)
    · have hw : 0 ≤ t.kind.weight := by
        cases hk : t.kind <;> simp_all [Kind.weight]
      exact step (open' + t.kind.weight.toNat) (by omega)

namespace Balanced

/-- **The partner of an opening bracket exists.** -/
theorem exists_partner {o : Token} {ts : List Token} (ho : o.kind = .openBracket)
    (h : Balanced (o :: ts)) :
    ∃ inner c after, ts = inner ++ c :: after ∧ c.kind = .closeBracket ∧
      Balanced inner ∧ Balanced after := by
  have he := h.excess_eq
  rw [excess_cons, ho, Kind.weight] at he
  obtain ⟨inner, c, after, rfl, hc, hin, hp⟩ := exists_first_closing ts 0 (by omega)
  refine ⟨inner, c, after, rfl, hc, ⟨hp, hin⟩, ?_⟩
  have hsplit : o :: (inner ++ c :: after) = (o :: (inner ++ [c])) ++ after := by simp
  rw [hsplit] at h
  exact h.right (by simp [ho, hc, hin, Kind.weight])

/-- **The partner of an opening bracket is unique**: at most one closing bracket has a balanced
list before it. -/
theorem partner_unique {xs ys : List Token} {c d : Token} {as bs : List Token}
    (h : xs ++ c :: as = ys ++ d :: bs) (hx : Balanced xs) (hy : Balanced ys)
    (hc : c.kind = .closeBracket) (hd : d.kind = .closeBracket) :
    xs = ys ∧ c = d ∧ as = bs := by
  -- If one of the two lists were longer, it would have a prefix that closes too much.
  have key {us vs : List Token} {e : Token} (hv : Balanced vs) (hu : Balanced us)
      (he : e.kind = .closeBracket) {z : List Token} (hz : vs = us ++ e :: z) : False := by
    have := hv.prefix_nonneg (us ++ [e]) ⟨z, by rw [hz]; simp⟩
    simp [hu.excess_eq, he, Kind.weight] at this
  rcases List.append_eq_append_iff.1 h with ⟨zs, rfl, hz⟩ | ⟨zs, rfl, hz⟩
  · cases zs with
    | nil => simpa using hz
    | cons z zs =>
      rw [List.cons_append, List.cons.injEq] at hz
      obtain ⟨rfl, -⟩ := hz
      exact (key hy hx hc rfl).elim
  · cases zs with
    | nil => simpa [eq_comm] using hz
    | cons z zs =>
      rw [List.cons_append, List.cons.injEq] at hz
      obtain ⟨rfl, -⟩ := hz
      exact (key hx hy hd rfl).elim

/-- **The innermost open bracket is unique**: at most one opening bracket has a balanced list after
it. -/
theorem opener_unique {xs ys : List Token} {o p : Token} {as bs : List Token}
    (h : as ++ o :: xs = bs ++ p :: ys) (hx : Balanced xs) (hy : Balanced ys)
    (ho : o.kind = .openBracket) (hp : p.kind = .openBracket) :
    as = bs ∧ o = p ∧ xs = ys := by
  -- If one of the two lists were longer, it would have a suffix that opens too much.
  have key {us vs : List Token} {e : Token} (hv : Balanced vs) (hu : Balanced us)
      (he : e.kind = .openBracket) {z : List Token} (hz : vs = z ++ e :: us) : False := by
    rw [hz] at hv
    have := hv.suffix_nonpos
    simp [hu.excess_eq, he, Kind.weight] at this
  rcases List.append_eq_append_iff.1 h with ⟨zs, rfl, hz⟩ | ⟨zs, rfl, hz⟩
  · cases zs with
    | nil => simpa using hz
    | cons z zs =>
      rw [List.cons_append, List.cons.injEq] at hz
      obtain ⟨rfl, rfl⟩ := hz
      exact (key hx hy hp rfl).elim
  · cases zs with
    | nil => simpa [eq_comm] using hz
    | cons z zs =>
      rw [List.cons_append, List.cons.injEq] at hz
      obtain ⟨rfl, rfl⟩ := hz
      exact (key hy hx ho rfl).elim

/-- A balanced list does not end with something that a bracket inside it has closed before. -/
theorem not_closer {xs ys : List Token} {c : Token} (h : Balanced (xs ++ c :: ys))
    (hx : Balanced xs) (hc : c.kind = .closeBracket) : False := by
  have := h.prefix_nonneg (xs ++ [c]) ⟨ys, by simp⟩
  simp [hx.excess_eq, hc, Kind.weight] at this

/-- A balanced list does not begin with something that a bracket inside it leaves open. -/
theorem not_opener {xs ys : List Token} {o : Token} (h : Balanced (xs ++ o :: ys))
    (hy : Balanced ys) (ho : o.kind = .openBracket) : False := by
  have := h.suffix_nonpos
  simp [hy.excess_eq, ho, Kind.weight] at this

end Balanced

end Polish
