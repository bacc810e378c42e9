import Polish.Proofs.Tree.Listing

/-!
# Where both scans have the same tree

Between operators of one level a scan asks only the operator that it comes to later.  If all of them
group in the same way, it does not matter which one that is, and otherwise it does.

* `Table.Agree` — operators of one level with no looser one between them group in the same way;
* `Tree.eq_iff_agree` — two trees over the same operands, one as each scan would have it, are the
  same exactly if the operators agree;
* `Expression.tree_eq_iff` — so both scans have the same tree of an expression exactly if the
  operators agree in all its parts, which is `Expression.Agrees`.

## How the proof goes

Take the root of a tree that both scans would have, and two operators of one level.  If both are on
one side of the root the induction has them.  If one of them is the root, each scan asks one of the
two, and they give the same answer.  If the root is between them it is not looser, by assumption,
and not tighter either, because it is above them.  So it is of their level, and the one scan has it
group to the left and the other one to the right, which is impossible.
-/

set_option autoImplicit false

namespace Polish

/-- Operators of one level with no looser one between them group in the same way. -/
def Table.Agree (operators : Table Operator) (tokens : List Token) : Prop :=
  ∀ xs p ys q zs a b, tokens = xs ++ p :: (ys ++ q :: zs) →
    operators.find? p.text = some a → operators.find? q.text = some b → a.level = b.level →
    (∀ s ∈ ys, ∀ c, operators.find? s.text = some c → a.level ≤ c.level) →
    a.rightAssociative = b.rightAssociative

namespace Mode

variable {m : Mode} {operators : Table Operator} {p q : Token} {a b : Operator}

theorem leftFirst_of_level (hp : operators.find? p.text = some a)
    (hq : operators.find? q.text = some b) (hlevel : a.level = b.level) :
    m.leftFirst operators p q = !(m.later a b).rightAssociative := by
  simp [leftFirst, hp, hq, hlevel]

theorem level_le_of_leftFirst (hp : operators.find? p.text = some a)
    (hq : operators.find? q.text = some b) (h : m.leftFirst operators p q = true) :
    b.level ≤ a.level := by
  by_cases hlevel : a.level = b.level
  · omega
  · simp [leftFirst, hp, hq, hlevel] at h
    omega

theorem level_le_of_not_leftFirst (hp : operators.find? p.text = some a)
    (hq : operators.find? q.text = some b) (h : m.leftFirst operators p q = false) :
    a.level ≤ b.level := by
  by_cases hlevel : a.level = b.level
  · omega
  · simpa [leftFirst, hp, hq, hlevel] using h

/-- The notation does not matter between operators that group in the same way. -/
theorem leftFirst_congr (m m' : Mode)
    (h : ∀ a b, operators.find? p.text = some a → operators.find? q.text = some b →
      a.level = b.level → a.rightAssociative = b.rightAssociative) :
    m.leftFirst operators p q = m'.leftFirst operators p q := by
  unfold leftFirst
  cases hp : operators.find? p.text <;> cases hq : operators.find? q.text <;> try rfl
  next a b =>
    by_cases hlevel : a.level = b.level
    · have hsame := h a b hp hq hlevel
      cases m <;> cases m' <;> simp [later, hlevel, hsame]
    · simp [hlevel]

end Mode

/-! ## Trees -/

namespace Tree

variable {operators : Table Operator} {m m' : Mode} {t u : Tree}

/-- A token of a list that is given in two ways comes before, at or after another one. -/
theorem append_cons_eq {l r xs zs : List Token} {o p : Token} (h : l ++ o :: r = xs ++ p :: zs) :
    (∃ ys, l = xs ++ p :: ys ∧ zs = ys ++ o :: r) ∨ (p = o ∧ zs = r) ∨
      ∃ ys, xs = l ++ o :: ys ∧ r = ys ++ p :: zs := by
  rcases List.append_eq_append_iff.1 h with ⟨as, hxs, has⟩ | ⟨bs, hl, hbs⟩
  · cases as with
    | nil =>
      obtain ⟨rfl, rfl⟩ := List.cons.inj has
      exact .inr (.inl ⟨rfl, rfl⟩)
    | cons a as =>
      obtain ⟨rfl, hr⟩ := List.cons.inj has
      exact .inr (.inr ⟨as, hxs, hr⟩)
  · cases bs with
    | nil =>
      obtain ⟨rfl, rfl⟩ := List.cons.inj hbs
      exact .inr (.inl ⟨rfl, rfl⟩)
    | cons b bs =>
      obtain ⟨rfl, hzs⟩ := List.cons.inj hbs
      exact .inl ⟨bs, hl, hzs⟩

/-- **Where both scans would have the same tree, its operators agree.** -/
theorem agree_of_grouped (hreg : t.Registered operators)
    (hrpn : t.Grouped (Mode.leftFirst .rpn operators))
    (hpn : t.Grouped (Mode.leftFirst .pn operators)) : operators.Agree t.operators := by
  induction t with
  | value | group | call =>
    intro xs p ys q zs a b h
    simp [Tree.operators] at h
  | node root left right ihl ihr =>
    obtain ⟨hl, hr, hgl, hgr⟩ := hrpn
    obtain ⟨hl', hr', hgl', hgr'⟩ := hpn
    have hregl : left.Registered operators := fun o ho => hreg o (by simp [Tree.operators, ho])
    have hregr : right.Registered operators := fun o ho => hreg o (by simp [Tree.operators, ho])
    obtain ⟨-, hroot⟩ := hreg root (by simp [Tree.operators])
    obtain ⟨c, hc⟩ := Option.isSome_iff_exists.1 hroot
    intro xs p ys q zs a b h ha hb hlevel hbetween
    rcases append_cons_eq h with ⟨ws, hleft, hws⟩ | ⟨rfl, hright⟩ | ⟨ws, -, hright⟩
    · have hp : p ∈ left.operators := by simp [hleft]
      have h₁ := hl p hp
      have h₂ := hl' p hp
      rcases append_cons_eq hws.symm with ⟨zs', hzs', -⟩ | ⟨rfl, -⟩ | ⟨ys', hys, hright⟩
      · rw [hzs'] at hleft
        exact ihl hregl hgl hgl' xs p ys q zs' a b hleft ha hb hlevel hbetween
      · rw [Mode.leftFirst_of_level ha hb hlevel] at h₁ h₂
        simp only [Mode.later, Bool.not_eq_true'] at h₁ h₂
        rw [h₁, h₂]
      · -- The root is between them, and would have to group both ways.
        have hle := hbetween root (by simp [hys]) c hc
        have hge := Mode.level_le_of_leftFirst ha hc h₁
        have h₃ := hr' q (by simp [hright])
        rw [Mode.leftFirst_of_level ha hc (by omega)] at h₁
        rw [Mode.leftFirst_of_level hc hb (by omega)] at h₃
        simp only [Mode.later, Bool.not_eq_true', Bool.not_eq_false'] at h₁ h₃
        rw [h₁] at h₃
        cases h₃
    · have hq : q ∈ right.operators := by simp [← hright]
      have h₁ := hr q hq
      have h₂ := hr' q hq
      rw [Mode.leftFirst_of_level ha hb hlevel] at h₁ h₂
      simp only [Mode.later, Bool.not_eq_false'] at h₁ h₂
      rw [h₁, h₂]
    · exact ihr hregr hgr hgr' ws p ys q zs a b hright ha hb hlevel hbetween

/-- **Where the operators agree, a tree for one scan is a tree for the other.** -/
theorem Grouped.of_agree (m' : Mode) (hg : t.Grouped (m.leftFirst operators))
    (ha : operators.Agree t.operators) : t.Grouped (m'.leftFirst operators) := by
  induction t with
  | value | group | call => trivial
  | node root left right ihl ihr =>
    obtain ⟨hl, hr, hgl, hgr⟩ := hg
    refine ⟨fun p hp => ?_, fun q hq => ?_, ihl hgl ?_, ihr hgr ?_⟩
    · rw [← hl p hp]
      refine Mode.leftFirst_congr m' m fun a b hpa hb hlevel => ?_
      obtain ⟨xs, ys, hsplit⟩ := List.append_of_mem hp
      refine ha xs p ys root right.operators a b (by simp [Tree.operators, hsplit]) hpa hb hlevel ?_
      intro s hs c hc
      have := Mode.level_le_of_leftFirst hc hb (hl s (by simp [hsplit, hs]))
      omega
    · rw [← hr q hq]
      refine Mode.leftFirst_congr m' m fun a b hroot hqb hlevel => ?_
      obtain ⟨ys, zs, hsplit⟩ := List.append_of_mem hq
      refine ha left.operators root ys q zs a b (by simp [Tree.operators, hsplit]) hroot hqb
        hlevel ?_
      intro s hs c hc
      exact Mode.level_le_of_not_leftFirst hroot hc (hr s (by simp [hsplit, hs]))
    · intro xs p ys q zs a b h
      exact ha xs p ys q (zs ++ root :: right.operators) a b (by simp [Tree.operators, h])
    · intro xs p ys q zs a b h
      exact ha (left.operators ++ root :: xs) p ys q zs a b (by simp [Tree.operators, h])

/-- **Trees for the two scans over the same operators are the same** if their operands are the same
and the operators agree, and only then. -/
theorem eq_iff_agree (hreg : t.Registered operators)
    (ht : t.Grouped (Mode.leftFirst .rpn operators))
    (hu : u.Grouped (Mode.leftFirst .pn operators)) (hoperators : t.operators = u.operators) :
    t = u ↔ t.operands = u.operands ∧ operators.Agree t.operators := by
  constructor
  · rintro rfl
    exact ⟨rfl, agree_of_grouped hreg ht hu⟩
  · rintro ⟨hoperands, ha⟩
    exact (ht.of_agree .pn ha).unique hu hoperators hoperands

end Tree

/-! ## Expressions -/

/-- The operators of an expression that are not inside brackets. -/
def Expression.operators : Expression → List Token
  | .single _ => []
  | .chain _ operator rest => operator :: rest.operators

theorem Expression.operators_tree (before : Token → Token → Bool) (x : Expression) :
    (x.tree before).operators = x.operators := by
  cases x with
  | single t => exact t.operators_tree before
  | chain t o rest =>
    rw [Expression.tree, Tree.operators_prepend, t.operators_tree, rest.operators_tree]
    rfl

theorem Term.operands_tree (before : Token → Token → Bool) (t : Term) :
    (t.tree before).operands = [t.tree before] := by
  cases t <;> rfl

section

variable (operators : Table Operator)

mutual

/-- The operators agree, inside all brackets too. -/
def Expression.Agrees : Expression → Prop
  | .single term => term.Agrees
  | .chain term operator rest =>
    operators.Agree (operator :: rest.operators) ∧ term.Agrees ∧ rest.Agrees

/-- The same of a term. -/
def Term.Agrees : Term → Prop
  | .value _ => True
  | .group _ inner _ => inner.Agrees
  | .bare .. => True
  | .call _ _ args _ => args.Agrees

/-- The same of arguments. -/
def Arguments.Agrees : Arguments → Prop
  | .last arg => arg.Agrees
  | .more arg _ rest => arg.Agrees ∧ rest.Agrees

end

end

variable {operators : Table Operator} {limit : Int}

mutual

theorem Term.tree_eq_iff : (t : Term) → t.Proper → t.Valid operators limit →
    (t.tree (Mode.leftFirst .rpn operators) = t.tree (Mode.leftFirst .pn operators) ↔
      t.Agrees operators)
  | .value _, _, _ => by simp [Term.tree, Term.Agrees]
  | .group _ inner _, ⟨_, hi, _⟩, hv => by
    simpa [Term.tree, Term.Agrees] using inner.tree_eq_iff hi hv
  | .bare .., _, _ => by simp [Term.tree, Term.Agrees]
  | .call _ _ args _, ⟨_, _, ha, _⟩, ⟨_, hv⟩ => by
    simpa [Term.tree, Term.Agrees] using args.trees_eq_iff ha hv

/-- **Both scans have the same tree of an expression** if its operators agree, and only then. -/
theorem Expression.tree_eq_iff : (x : Expression) → x.Proper → x.Valid operators limit →
    (x.tree (Mode.leftFirst .rpn operators) = x.tree (Mode.leftFirst .pn operators) ↔
      x.Agrees operators)
  | .single t, hp, hv => t.tree_eq_iff hp hv
  | .chain t o rest, hp, hv => by
    have heq (y : Expression) (hyp : y.Proper) (hyv : y.Valid operators limit) :=
      Tree.eq_iff_agree (Expression.registered_tree _ hyp hyv) (y.grouped_leftFirst .rpn operators)
        (y.grouped_leftFirst .pn operators) (by rw [y.operators_tree, y.operators_tree])
    have ht := t.tree_eq_iff hp.1 hv.1
    have hrest := rest.tree_eq_iff hp.2.2 hv.2.2
    rw [heq rest hp.2.2 hv.2.2, rest.operators_tree] at hrest
    rw [heq _ hp hv, Expression.operators_tree, Expression.tree, Expression.tree,
      Tree.operands_prepend, Tree.operands_prepend, t.operands_tree, t.operands_tree,
      List.singleton_append, List.singleton_append, List.cons.injEq, ht, Expression.Agrees,
      ← hrest, Expression.operators]
    -- What holds between all operators holds between those of the rest.
    have hshorter (h : operators.Agree (o :: rest.operators)) : operators.Agree rest.operators :=
      fun xs p ys q zs a b hsplit => h (o :: xs) p ys q zs a b (by rw [hsplit]; rfl)
    constructor
    · rintro ⟨⟨h, hoperands⟩, hagree⟩
      exact ⟨hagree, h, hoperands, hshorter hagree⟩
    · rintro ⟨hagree, h, hoperands, -⟩
      exact ⟨⟨h, hoperands⟩, hagree⟩

theorem Arguments.trees_eq_iff : (as : Arguments) → as.Proper → as.Valid operators limit →
    (as.trees (Mode.leftFirst .rpn operators) = as.trees (Mode.leftFirst .pn operators) ↔
      as.Agrees operators)
  | .last x, hp, hv => by simpa [Arguments.trees, Arguments.Agrees] using x.tree_eq_iff hp hv
  | .more x _ rest, ⟨hx, _, hr⟩, ⟨hvx, hvr⟩ => by
    rw [Arguments.trees, Arguments.trees, List.cons.injEq, x.tree_eq_iff hx hvx,
      rest.trees_eq_iff hr hvr, Arguments.Agrees]

end

/-- Under a uniform table the operators of every expression agree. -/
theorem Expression.agrees_of_uniform (h : operators.Uniform) {x : Expression} (hp : x.Proper)
    (hv : x.Valid operators limit) : x.Agrees operators := by
  rw [← x.tree_eq_iff hp hv, Mode.leftFirst_eq h .rpn, Mode.leftFirst_eq h .pn]

end Polish
