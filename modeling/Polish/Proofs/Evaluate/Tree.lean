import Polish.Proofs.Evaluate.Run
import Polish.Proofs.Tree.Basic

/-!
# The value of a tree

`Tree.eval` is what a tree stands for: values are read or looked up, and operators and functions
are applied to what is below them.  `Tree.callDepth` is how deeply its calls are nested.

`Tree.evaluates_listing` — evaluating the listing of a tree, in either notation, gives the value of
the tree, and it needs as many levels of calls as the tree has.

## How the proof goes

The listing of a tree is evaluated on any stack, and what is below is left alone.  Then a node is
its two operands and one more step, and the two notations differ in which operand comes first and in
the order in which the operator takes them off, so that it is given the left one first in either
(`runs_node`).  A call is one token.  Its arguments are listings of trees with one level less, and
the induction is on the tree, together with its lists of arguments.
-/

set_option autoImplicit false

namespace Polish

namespace Tree

open Evaluate (Draws)

mutual

/-- The value of a tree, if it has one, given the numbers that come up for each of its tokens. -/
def eval (r : Registries) (draws : Draws) : Tree → Option Float
  | value token => match token.kind with
    | .number => Literal.read? token.text
    | .constant => r.constants.find? token.text
    | _ => none
  | group inner => inner.eval r draws
  | call name args => do
    let values ← evalAll r draws args
    let function ← r.functions.find? name.text
    (function (draws name.handle) values).toOption
  | node operator left right => do
    let x ← left.eval r draws
    let y ← right.eval r draws
    let op ← r.operators.find? operator.text
    (op.function (draws operator.handle) [x, y]).toOption

/-- The values of several trees, if each has one. -/
def evalAll (r : Registries) (draws : Draws) : List Tree → Option (List Float)
  | [] => some []
  | tree :: rest => do
    let value ← tree.eval r draws
    let values ← evalAll r draws rest
    return value :: values

end

mutual

/-- How deeply calls are nested in a tree; a call by itself counts as one. -/
def callDepth : Tree → Nat
  | value _ => 0
  | group inner => inner.callDepth
  | call _ args => callDepthOf args + 1
  | node _ left right => max left.callDepth right.callDepth

/-- How deeply calls are nested in several trees. -/
def callDepthOf : List Tree → Nat
  | [] => 0
  | tree :: rest => max tree.callDepth (callDepthOf rest)

end

mutual

/-- All tokens are of the kinds that their places ask for. -/
def Proper : Tree → Prop
  | value token => token.kind.isValue = true
  | group inner => inner.Proper
  | call name args => name.kind = .call ∧ ProperAll args
  | node operator left right => operator.kind = .operator ∧ left.Proper ∧ right.Proper

/-- The same of several trees. -/
def ProperAll : List Tree → Prop
  | [] => True
  | tree :: rest => tree.Proper ∧ ProperAll rest

end

theorem proper_prepend {before : Token → Token → Bool} {operand : Tree} {operator : Token}
    (hop : operand.Proper) (hkind : operator.kind = .operator) {t : Tree} (ht : t.Proper) :
    (prepend before operand operator t).Proper := by
  induction t with
  | value | group | call => exact ⟨hkind, hop, ht⟩
  | node root left right ihl ihr =>
    obtain ⟨hroot, hl, hr⟩ := ht
    rw [prepend]
    split
    · exact ⟨hroot, ihl hl, hr⟩
    · exact ⟨hkind, hop, hroot, hl, hr⟩

end Tree

/-! ## Listings of trees -/

namespace Evaluate

variable {job : Job} {now : Surroundings}

theorem does_operator {inner : Option Meaning} {operator : Token}
    {stack below stack' : List Float} {x y : Float} (hkind : operator.kind = .operator)
    (hstack : job.operands? stack = some (x, y, below)) :
    Does job now inner operator stack stack' ↔
      ∃ value, ((now.registries.operators.find? operator.text).bind fun op =>
        (op.function (job.draws operator.handle) [x, y]).toOption) = some value ∧
        stack' = value :: below := by
  rw [Does, hkind]
  simp only [hstack, Option.some.injEq, Prod.mk.injEq, Option.bind_eq_some_iff, toOption_eq_some]
  constructor
  · rintro ⟨_, _, _, op, v, ⟨rfl, rfl, rfl⟩, hop, hv, rfl⟩
    exact ⟨v, ⟨op, hop, hv⟩, rfl⟩
  · rintro ⟨v, ⟨op, hop, hv⟩, rfl⟩
    exact ⟨_, _, _, op, v, ⟨rfl, rfl, rfl⟩, hop, hv, rfl⟩

/-- An operator is applied to what is below it, whichever of its operands comes first. -/
theorem runs_node {inner : Option Meaning} {operator : Token} {left right : Tree}
    {stack stack' : List Float} {P Q : Float → Prop} (hkind : operator.kind = .operator)
    (hl : ∀ s s', Runs job now inner (job.mode.scanOrder (left.listing job.mode)) s s' ↔
      ∃ x, P x ∧ s' = x :: s)
    (hr : ∀ s s', Runs job now inner (job.mode.scanOrder (right.listing job.mode)) s s' ↔
      ∃ y, Q y ∧ s' = y :: s) :
    Runs job now inner (job.mode.scanOrder ((Tree.node operator left right).listing job.mode))
        stack stack' ↔
      ∃ x y v, P x ∧ Q y ∧ ((now.registries.operators.find? operator.text).bind fun op =>
        (op.function (job.draws operator.handle) [x, y]).toOption) = some v ∧
        stack' = v :: stack := by
  cases hm : job.mode with
  | rpn =>
    have hstack (x y : Float) : job.operands? (y :: x :: stack) = some (x, y, stack) := by
      simp [Job.operands?, hm]
    simp only [hm, Mode.scanOrder, Tree.listing] at hl hr ⊢
    simp only [runs_append, runs_singleton, hl, hr]
    constructor
    · rintro ⟨_, ⟨_, ⟨x, hx, rfl⟩, y, hy, rfl⟩, hdo⟩
      obtain ⟨v, hv, rfl⟩ := (does_operator hkind (hstack x y)).1 hdo
      exact ⟨x, y, v, hx, hy, hv, rfl⟩
    · rintro ⟨x, y, v, hx, hy, hv, rfl⟩
      exact ⟨_, ⟨_, ⟨x, hx, rfl⟩, y, hy, rfl⟩, (does_operator hkind (hstack x y)).2 ⟨v, hv, rfl⟩⟩
  | pn =>
    have hstack (x y : Float) : job.operands? (x :: y :: stack) = some (x, y, stack) := by
      simp [Job.operands?, hm]
    simp only [hm, Mode.scanOrder, Tree.listing] at hl hr ⊢
    simp only [List.reverse_cons, List.reverse_append, runs_append, runs_singleton, hl, hr]
    constructor
    · rintro ⟨_, ⟨_, ⟨y, hy, rfl⟩, x, hx, rfl⟩, hdo⟩
      obtain ⟨v, hv, rfl⟩ := (does_operator hkind (hstack x y)).1 hdo
      exact ⟨x, y, v, hx, hy, hv, rfl⟩
    · rintro ⟨x, y, v, hx, hy, hv, rfl⟩
      exact ⟨_, ⟨_, ⟨y, hy, rfl⟩, x, hx, rfl⟩, (does_operator hkind (hstack x y)).2 ⟨v, hv, rfl⟩⟩

mutual

/-- On top of any stack, the listing of a tree leaves the value of the tree. -/
theorem runs_listing (levels : Nat) (stack stack' : List Float) :
    (t : Tree) → t.Proper → t.Attached job.mode now.sheet →
      (Runs job now (deeper job now levels) (job.mode.scanOrder (t.listing job.mode)) stack stack' ↔
        ∃ v, t.eval now.registries job.draws = some v ∧ t.callDepth ≤ levels ∧ stack' = v :: stack)
  | .value token, hp, _ => by
    have hscan : job.mode.scanOrder (Tree.listing job.mode (.value token)) = [token] := by
      cases job.mode <;> rfl
    rw [hscan, runs_singleton, Does]
    simp only [Tree.Proper] at hp
    cases hk : token.kind <;> simp_all [Tree.eval, Tree.callDepth, Kind.isValue]
  | .group inner, hp, ha => by
    have hattached : inner.Attached job.mode now.sheet := by
      simpa [Tree.Attached, Tree.calls] using ha
    simpa [Tree.listing, Tree.eval, Tree.callDepth]
      using runs_listing levels stack stack' inner hp hattached
  | .call name args, ⟨hk, hp⟩, ha => by
    have hscan : job.mode.scanOrder (Tree.listing job.mode (.call name args)) = [name] := by
      cases job.mode <;> rfl
    have hargs : now.sheet.args? name.handle = some (args.map (Tree.listing job.mode)) :=
      ha (name, args) (by simp [Tree.calls])
    have hrest : ∀ c ∈ Tree.callsOf args, now.sheet.args? c.1.handle
        = some (c.2.map (Tree.listing job.mode)) := fun c hc => ha c (by simp [Tree.calls, hc])
    rw [hscan, runs_singleton, Does, hk]
    -- One level is used up by the call, so its arguments have one less.
    cases levels with
    | zero => simp [deeper, Tree.callDepth]
    | succ levels =>
      have hvalues (values : List Float) := values_listing levels values args hp hrest
      simp only [hargs, Option.some.injEq, deeper, Tree.eval, Tree.callDepth,
        Option.bind_eq_bind, Option.bind_eq_some_iff, toOption_eq_some, Nat.add_le_add_iff_right]
      constructor
      · rintro ⟨f, _, _, values, v, hf, rfl, rfl, hvs, hv, rfl⟩
        obtain ⟨heval, hdepth⟩ := (hvalues values).1 hvs
        exact ⟨v, ⟨values, heval, f, hf, hv⟩, hdepth, rfl⟩
      · rintro ⟨v, ⟨values, heval, f, hf, hv⟩, hdepth, rfl⟩
        exact ⟨f, _, _, values, v, hf, rfl, rfl, (hvalues values).2 ⟨heval, hdepth⟩, hv, rfl⟩
  | .node operator left right, ⟨hk, hpl, hpr⟩, ha => by
    have hal : left.Attached job.mode now.sheet := fun c hc => ha c (by simp [Tree.calls, hc])
    have har : right.Attached job.mode now.sheet := fun c hc => ha c (by simp [Tree.calls, hc])
    have hl (s s' : List Float) :
        Runs job now (deeper job now levels) (job.mode.scanOrder (left.listing job.mode)) s s' ↔
          ∃ x, (left.eval now.registries job.draws = some x ∧ left.callDepth ≤ levels) ∧
            s' = x :: s := by
      simp only [runs_listing levels s s' left hpl hal, and_assoc]
    have hr (s s' : List Float) :
        Runs job now (deeper job now levels) (job.mode.scanOrder (right.listing job.mode)) s s' ↔
          ∃ y, (right.eval now.registries job.draws = some y ∧ right.callDepth ≤ levels) ∧
            s' = y :: s := by
      simp only [runs_listing levels s s' right hpr har, and_assoc]
    rw [runs_node hk hl hr]
    simp only [Tree.eval, Tree.callDepth, Nat.max_le, Option.bind_eq_bind, Option.bind_eq_some_iff]
    constructor
    · rintro ⟨x, y, v, ⟨hx, hdx⟩, ⟨hy, hdy⟩, hv, rfl⟩
      exact ⟨v, ⟨x, hx, y, hy, hv⟩, ⟨hdx, hdy⟩, rfl⟩
    · rintro ⟨v, ⟨x, hx, y, hy, hv⟩, ⟨hdx, hdy⟩, rfl⟩
      exact ⟨x, y, v, ⟨hx, hdx⟩, ⟨hy, hdy⟩, hv, rfl⟩

/-- The same of the arguments of a call. -/
theorem values_listing (levels : Nat) (values : List Float) :
    (ts : List Tree) → Tree.ProperAll ts →
      (∀ c ∈ Tree.callsOf ts,
        now.sheet.args? c.1.handle = some (c.2.map (Tree.listing job.mode))) →
      (Values (Evaluates job now levels) (ts.map (Tree.listing job.mode)) values ↔
        Tree.evalAll now.registries job.draws ts = some values ∧ Tree.callDepthOf ts ≤ levels)
  | [], _, _ => by simp [Values, Tree.evalAll, Tree.callDepthOf, eq_comm]
  | t :: rest, ⟨hp, hps⟩, ha => by
    have ht (v : Float) := runs_listing levels [] [v] t hp
      fun c hc => ha c (by simp [Tree.callsOf, hc])
    have hrest (vs : List Float) := values_listing levels vs rest hps
      fun c hc => ha c (by simp [Tree.callsOf, hc])
    simp only [List.map_cons, Values, evaluates_iff, ht, hrest, Tree.evalAll, Tree.callDepthOf,
      Nat.max_le, Option.bind_eq_bind, Option.bind_eq_some_iff]
    constructor
    · rintro ⟨_, vs, rfl, ⟨v, hv, hd, h⟩, hvs, hds⟩
      obtain rfl := (List.cons.inj h).1
      exact ⟨⟨_, hv, vs, hvs, rfl⟩, hd, hds⟩
    · rintro ⟨⟨v, hv, vs, hvs, h⟩, hd, hds⟩
      exact ⟨v, vs, (Option.some.inj h).symm, ⟨v, hv, hd, rfl⟩, hvs, hds⟩

end

/-- **The listing of a tree evaluates to the value of the tree**, if there are levels of calls
enough. -/
theorem evaluates_listing {levels : Nat} {value : Float} {t : Tree} (hp : t.Proper)
    (ha : t.Attached job.mode now.sheet) :
    Evaluates job now levels (t.listing job.mode) value ↔
      t.eval now.registries job.draws = some value ∧ t.callDepth ≤ levels := by
  rw [evaluates_iff, runs_listing levels [] [value] t hp ha]
  simp [eq_comm (a := value)]

end Evaluate

end Polish
