import Polish.Proofs.Compile.Yard
import Polish.Proofs.Table
import Polish.Proofs.Tree.Expression

/-!
# Precedence

Of two operators with an operand between them, one takes it.  `Table.leftFirst` is what a table of
operators says about that: the one of the higher level, and between equals the left one if their
level groups to the left.

A scan decides with what it has at hand.  It comes to one of the two operators later than to the
other, and between equals it asks that one alone: the right one from the left, the left one from the
right.  `Mode.leftFirst` is what comes of this, and `Mode.leftFirst_eq` says that it is what the
table says, in both notations, if all operators of a level group in the same way.

## Why there are two relations

What precedence means must not depend on how a text is scanned, and what a scan does must not be
assumed to be what precedence means.  They are the same under `Table.Uniform`, which the operators
of a new engine are, and an engine that has learned others may have a table of which this is not
true.
-/

set_option autoImplicit false

namespace Polish

namespace Table

/-- All operators of one level group in the same way. -/
def Uniform (operators : Table Operator) : Prop :=
  ∀ s t a b, operators.find? s = some a → operators.find? t = some b → a.level = b.level →
    a.rightAssociative = b.rightAssociative

theorem uniform_iff {operators : Table Operator} :
    operators.Uniform ↔ ∀ a ∈ operators.values, ∀ b ∈ operators.values, a.level = b.level →
      a.rightAssociative = b.rightAssociative := by
  simp only [Uniform, find?_eq_some_iff, values, List.mem_map]
  constructor
  · rintro h _ ⟨⟨s, a⟩, ha, rfl⟩ _ ⟨⟨t, b⟩, hb, rfl⟩
    exact h s t a b ha hb
  · exact fun h s t a b ha hb => h a ⟨_, ha, rfl⟩ b ⟨_, hb, rfl⟩

instance (operators : Table Operator) : Decidable operators.Uniform :=
  decidable_of_iff _ uniform_iff.symm

theorem uniform_standard : Registries.standard.operators.Uniform := by decide

/-- Whether the left one of two operators takes what is between them.  An operator that is not
registered counts as looser than all others. -/
def leftFirst (operators : Table Operator) (left right : Token) : Bool :=
  match operators.find? left.text, operators.find? right.text with
  | some l, some r => r.level < l.level || (l.level = r.level && !l.rightAssociative)
  | none, some _ => false
  | _, none => true

end Table

namespace Mode

/-- The operator that a scan comes to later. -/
def later {α : Type} (m : Mode) (left right : α) : α :=
  match m with
  | .rpn => right
  | .pn => left

/-- Whether the left one of two operators takes what is between them in the scan of a notation. -/
def leftFirst (m : Mode) (operators : Table Operator) (left right : Token) : Bool :=
  match operators.find? left.text, operators.find? right.text with
  | some l, some r =>
    if l.level = r.level then !(m.later l r).rightAssociative else r.level < l.level
  | none, some _ => false
  | _, none => true

variable {m : Mode} {operators : Table Operator} {p q r : Token}

theorem leftFirst_trans (hpq : m.leftFirst operators p q = true)
    (hqr : m.leftFirst operators q r = true) : m.leftFirst operators p r = true := by
  unfold leftFirst at *
  cases hp : operators.find? p.text <;> cases hq : operators.find? q.text <;>
    cases hr : operators.find? r.text <;> simp only [hp, hq, hr, reduceCtorEq] at hpq hqr ⊢
  next a b c =>
    cases m <;> simp only [later] at hpq hqr ⊢ <;> grind

theorem leftFirst_negTrans (hpq : m.leftFirst operators p q = false)
    (hqr : m.leftFirst operators q r = false) : m.leftFirst operators p r = false := by
  unfold leftFirst at *
  cases hp : operators.find? p.text <;> cases hq : operators.find? q.text <;>
    cases hr : operators.find? r.text <;> simp only [hp, hq, hr, reduceCtorEq] at hpq hqr ⊢
  next a b c =>
    cases m <;> simp only [later] at hpq hqr ⊢ <;> grind

/-- **Both scans decide as the table says**, if all operators of a level group in the same way. -/
theorem leftFirst_eq (h : operators.Uniform) (m : Mode) :
    m.leftFirst operators = operators.leftFirst := by
  funext left right
  unfold leftFirst Table.leftFirst
  cases hl : operators.find? left.text <;> cases hr : operators.find? right.text <;> try rfl
  next a b =>
    by_cases hlevel : a.level = b.level
    · have hsame := h _ _ a b hl hr hlevel
      cases m <;> simp [later, hlevel, hsame]
    · simp [hlevel]

end Mode

/-! ## What a scan does with its stack -/

variable {operators : Table Operator} {left right : Token}

theorem Yard.yields_rpn (hkind : left.kind = .operator)
    (hleft : operators.contains left.text = true) (hright : operators.contains right.text = true) :
    yields .rpn operators right left = Mode.leftFirst .rpn operators left right := by
  obtain ⟨l, hl⟩ := Option.isSome_iff_exists.1 hleft
  obtain ⟨r, hr⟩ := Option.isSome_iff_exists.1 hright
  simp [yields, Compile.gives, Mode.leftFirst, Mode.later, hl, hr, hkind, Compile.Job.leaves,
    show (Mode.rpn == Mode.pn) = false from rfl]

theorem Yard.yields_pn (hkind : right.kind = .operator)
    (hleft : operators.contains left.text = true) (hright : operators.contains right.text = true) :
    yields .pn operators left right = !Mode.leftFirst .pn operators left right := by
  obtain ⟨l, hl⟩ := Option.isSome_iff_exists.1 hleft
  obtain ⟨r, hr⟩ := Option.isSome_iff_exists.1 hright
  simp only [yields, Compile.gives, Mode.leftFirst, Mode.later, hl, hr, hkind, Compile.Job.leaves,
    Option.any_some, decide_true, Bool.true_and]
  by_cases hlevel : l.level = r.level
  · simp [hlevel]
  · have hlevel' : ¬ r.level = l.level := fun h => hlevel h.symm
    simp only [hlevel, hlevel', if_false]
    by_cases hlt : l.level < r.level
    · have : ¬ r.level < l.level := by omega
      simp [hlt, this]
    · have : r.level < l.level := by omega
      simp [hlt, this]

end Polish
