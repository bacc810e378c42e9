import Polish.Mode
import Polish.Sheet

/-!
# Expression trees

What an expression means, before any notation: values, calls with their arguments, operators with
two operands, and the brackets that were written around a part.

* `Tree.listing` — the two notations of a tree: each operator after its operands, or before them;
* `Tree.Attached` — the arguments of all calls in a tree stand on a sheet, as listings;
* `Tree.prepend` — puts an operand and an operator before a tree, where precedence wants them;
* `Tree.Grouped` — no operator stands under one that precedence would have under it.

What precedence wants is a relation `before`: whether of two operators with an operand between them
the left one takes it.  `grouped_prepend` says that `prepend` keeps to it, and `Grouped.unique` that
there is only one way to do so.

## How the proof goes

`prepend` goes down the left edge of the tree as long as the new operator comes before the one that
it meets.  Where it stops, the rest of the tree becomes its right operand, and it must come before
none of the operators in there; this is where `before` has to be like an order, also where it fails.
Two grouped trees over the same operators have the same root, since otherwise one root would be to
the left of the other and would both come before it and not.
-/

set_option autoImplicit false

namespace Polish

inductive Tree where
  | value (token : Token)
  /-- A part in brackets. -/
  | group (inner : Tree)
  | call (name : Token) (args : List Tree)
  | node (operator : Token) (left right : Tree)

namespace Tree

/-- Induction that looks into brackets and operands, and not into the arguments of calls. -/
@[induction_eliminator]
theorem induct {motive : Tree → Prop} (value : ∀ token, motive (value token))
    (group : ∀ inner, motive inner → motive (group inner))
    (call : ∀ name args, motive (call name args))
    (node : ∀ operator left right, motive left → motive right → motive (node operator left right)) :
    ∀ t, motive t
  | .value token => value token
  | .group inner => group inner (induct value group call node inner)
  | .call name args => call name args
  | .node operator left right =>
    node operator left right (induct value group call node left)
      (induct value group call node right)

/-! ## Listings -/

/-- The listing of a tree: operators after their operands or before them, calls as one token. -/
def listing (m : Mode) : Tree → List Token
  | value token => [token]
  | group inner => inner.listing m
  | call name _ => [name]
  | node operator left right => match m with
    | .rpn => left.listing m ++ right.listing m ++ [operator]
    | .pn => operator :: (left.listing m ++ right.listing m)

mutual

/-- All calls in a tree with their arguments. -/
def calls : Tree → List (Token × List Tree)
  | value _ => []
  | group inner => inner.calls
  | call name args => (name, args) :: callsOf args
  | node _ left right => left.calls ++ right.calls

/-- All calls in several trees. -/
def callsOf : List Tree → List (Token × List Tree)
  | [] => []
  | tree :: rest => tree.calls ++ callsOf rest

end

/-- What is written down for a call: its handle and the listings of its arguments. -/
def entry (m : Mode) (c : Token × List Tree) : Nat × List (List Token) :=
  (c.1.handle, c.2.map (listing m))

/-- The arguments of all calls in a tree stand on a sheet. -/
def Attached (m : Mode) (sheet : Sheet) (t : Tree) : Prop :=
  ∀ c ∈ t.calls, sheet.args? c.1.handle = some (c.2.map (listing m))

/-! ## Precedence -/

/-- The operators of a tree that are not inside brackets, from left to right. -/
def operators : Tree → List Token
  | node operator left right => left.operators ++ operator :: right.operators
  | _ => []

/-- The operators and what is between them, from left to right. -/
def operands : Tree → List Tree
  | node _ left right => left.operands ++ right.operands
  | t => [t]

variable (before : Token → Token → Bool)

/-- Puts an operand and an operator before a tree. -/
def prepend (operand : Tree) (operator : Token) : Tree → Tree
  | node root left right =>
    if before operator root then node root (prepend operand operator left) right
    else node operator operand (node root left right)
  | t => node operator operand t

/-- Every operator comes before the ones above it to its right and does not come before the ones
below it to its right. -/
def Grouped : Tree → Prop
  | node root left right =>
    (∀ p ∈ left.operators, before p root = true) ∧
      (∀ q ∈ right.operators, before root q = false) ∧ left.Grouped ∧ right.Grouped
  | _ => True

variable {before}

theorem operators_prepend (operand : Tree) (operator : Token) (t : Tree) :
    (prepend before operand operator t).operators
      = operand.operators ++ operator :: t.operators := by
  induction t with
  | value | group | call => rfl
  | node root left right ihl ihr =>
    rw [prepend]
    split
    · rw [operators, ihl]
      simp [operators]
    · rfl

theorem operands_prepend (operand : Tree) (operator : Token) (t : Tree) :
    (prepend before operand operator t).operands = operand.operands ++ t.operands := by
  induction t with
  | value | group | call => rfl
  | node root left right ihl ihr =>
    rw [prepend]
    split
    · rw [operands, ihl]
      simp [operands]
    · rfl

/-- **Precedence is kept to** if it orders operators as levels would. -/
theorem grouped_prepend
    (trans : ∀ p q r, before p q = true → before q r = true → before p r = true)
    (negTrans : ∀ p q r, before p q = false → before q r = false → before p r = false)
    {operand t : Tree} {operator : Token} (ho : operand.operators = [])
    (hg : operand.Grouped before) (ht : t.Grouped before) :
    (prepend before operand operator t).Grouped before := by
  have leaf (u : Tree) (hu : u.operators = []) (hgu : u.Grouped before) :
      (node operator operand u).Grouped before := by
    simp [Grouped, ho, hu, hg, hgu]
  induction t with
  | value | group | call => exact leaf _ rfl trivial
  | node root left right ihl ihr =>
    obtain ⟨hl, hr, hgl, hgr⟩ := ht
    rw [prepend]
    split
    · next hbefore =>
      refine ⟨fun p hp => ?_, hr, ihl hgl, hgr⟩
      rw [operators_prepend, ho, List.nil_append] at hp
      rcases List.mem_cons.1 hp with rfl | hp
      · exact hbefore
      · exact hl p hp
    · -- The root is not passed, so the whole tree becomes the right operand.
      next hbefore =>
      have hroot : before operator root = false := by simpa using hbefore
      refine ⟨by simp [ho], fun q hq => ?_, hg, hl, hr, hgl, hgr⟩
      rcases List.mem_append.1 hq with hq | hq
      · -- Otherwise the operator would come before the root by way of `q`.
        cases hb : before operator q with
        | false => rfl
        | true =>
          rw [trans _ _ _ hb (hl q hq)] at hroot
          exact hroot
      · rcases List.mem_cons.1 hq with rfl | hq
        · exact hroot
        · exact negTrans _ _ _ hroot (hr q hq)

/-- **There is only one grouped tree** over the same operands and operators. -/
theorem Grouped.unique {t u : Tree} (ht : t.Grouped before) (hu : u.Grouped before)
    (hoperators : t.operators = u.operators) (hoperands : t.operands = u.operands) : t = u := by
  have length_operands (v : Tree) : v.operands.length = v.operators.length + 1 := by
    induction v with
    | value | group | call => rfl
    | node root left right ihl ihr => simp [operands, operators, ihl, ihr]; omega
  have leaf (v : Tree) (h : v.operators = []) : v.operands = [v] := by
    cases v with
    | value | group | call => rfl
    | node => simp [operators] at h
  induction t generalizing u with
  | value | group | call =>
    rw [leaf u hoperators.symm] at hoperands
    exact (List.cons.inj hoperands).1
  | node root left right ihl ihr =>
    cases u with
    | value | group | call => simp [operators] at hoperators
    | node root' left' right' =>
      obtain ⟨hl, hr, hgl, hgr⟩ := ht
      obtain ⟨hl', hr', hgl', hgr'⟩ := hu
      -- If one root were to the left of the other, it would and would not come before it.
      have hroot : left.operators = left'.operators ∧ root = root' ∧
          right.operators = right'.operators := by
        rcases List.append_eq_append_iff.1 hoperators with ⟨as, h1, h2⟩ | ⟨bs, h1, h2⟩
        · cases as with
          | nil => simpa [h1] using h2
          | cons a as =>
            rw [List.cons_append, List.cons.injEq] at h2
            have h3 := hl' root (by rw [h1, h2.1]; simp)
            have h4 := hr root' (by rw [h2.2]; simp)
            rw [h3] at h4
            cases h4
        · cases bs with
          | nil => simpa [h1, eq_comm] using h2
          | cons b bs =>
            rw [List.cons_append, List.cons.injEq] at h2
            have h3 := hl root' (by rw [h1, h2.1]; simp)
            have h4 := hr' root (by rw [h2.2]; simp)
            rw [h3] at h4
            cases h4
      have hlen : left.operands.length = left'.operands.length := by
        rw [length_operands, length_operands, hroot.1]
      obtain ⟨hol, hor⟩ := List.append_inj hoperands hlen
      rw [ihl hgl hgl' hroot.1 hol, ihr hgr hgr' hroot.2.2 hor, hroot.2.1]

end Tree

end Polish
