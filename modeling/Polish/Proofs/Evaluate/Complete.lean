import Polish.Proofs.Evaluate.Tree

/-!
# Complete listings

How high the stack is follows the kinds of the tokens alone, and so does whether an operator finds
two values on it: `height?` keeps count.  A listing is `Complete` if all its operators do and one
value is left in the end, and if the same can be said of all arguments attached to its calls, all
the way down.

* `Evaluates.complete` — what evaluates is complete;
* `Tree.complete_listing` — so is the listing of a tree;
* `Complete.not_malformed` — a complete listing may fail to evaluate, but neither for want of
  operands nor for what is left on the stack.

## How the proof goes

The height of the stack is a sum: what is added by values and calls less what operators take away.
So it does not depend on the order as long as no operator comes too early, and two listings with the
same tokens have the same surplus (`surplus_perm`).  That no operator comes too early is what
`height?` keeps track of.

`Complete` is an inductive predicate, because a sheet may lead in circles and then there is no depth
to do a recursion over; what evaluates has gone down to the end, and the induction on the levels
that it had gives the derivation.  In the other direction, `Safe` says what a complete listing
cannot run into.  It makes no use of what the tokens are worth, so a number that cannot be read, an
unknown name or a fault of a function are all failures that remain possible.
-/

set_option autoImplicit false

namespace Polish

namespace Evaluate

/-! ## Counting -/

/-- How high the stack is after a token of a kind, if the token finds what it needs. -/
def raise? : Kind → Nat → Option Nat
  | .number, n | .constant, n | .call, n => some (n + 1)
  | .operator, n + 2 => some (n + 1)
  | _, _ => none

/-- How high the stack is after several tokens, if all of them find what they need. -/
def height? : Nat → List Token → Option Nat
  | n, [] => some n
  | n, token :: rest => (raise? token.kind n).bind fun n => height? n rest

theorem height?_append (n : Nat) (xs ys : List Token) :
    height? n (xs ++ ys) = (height? n xs).bind fun n => height? n ys := by
  induction xs generalizing n with
  | nil => rfl
  | cons t xs ih =>
    rw [List.cons_append, height?, height?, Option.bind_assoc]
    simp only [ih]

/-- How much higher the stack is after tokens than before. -/
def surplus : List Token → Int
  | [] => 0
  | token :: rest => (if token.kind = .operator then -1 else 1) + surplus rest

@[simp] theorem surplus_append (xs ys : List Token) :
    surplus (xs ++ ys) = surplus xs + surplus ys := by
  induction xs with
  | nil => simp [surplus]
  | cons t xs ih =>
    simp only [List.cons_append, surplus, ih]
    omega

theorem surplus_perm {xs ys : List Token} (h : xs.Perm ys) : surplus xs = surplus ys := by
  induction h with
  | nil => rfl
  | cons t _ ih => rw [surplus, surplus, ih]
  | swap t u xs =>
    simp only [surplus]
    omega
  | trans _ _ ih₁ ih₂ => exact ih₁.trans ih₂

theorem raise?_eq {kind : Kind} {n k : Nat} (h : raise? kind n = some k) :
    (k : Int) = n + if kind = .operator then -1 else 1 := by
  cases kind with
  | number | constant | call =>
    obtain rfl := Option.some.inj h
    rw [if_neg (by decide)]
    omega
  | operator =>
    rw [if_pos rfl]
    match n, h with
    | n + 2, h =>
      obtain rfl := Option.some.inj h
      omega
  | openBracket | closeBracket | separator | other => cases h

theorem height?_eq {n k : Nat} {ts : List Token} (h : height? n ts = some k) :
    (k : Int) = n + surplus ts := by
  induction ts generalizing n with
  | nil =>
    obtain rfl := Option.some.inj h
    simp [surplus]
  | cons t ts ih =>
    rw [height?, Option.bind_eq_some_iff] at h
    obtain ⟨between, hraise, h⟩ := h
    rw [ih h, raise?_eq hraise, surplus]
    omega

/-! ## Completeness -/

/-- All operators find two values and one value is left, and the same of all arguments. -/
inductive Complete (m : Mode) (sheet : Sheet) : List Token → Prop where
  | intro {list : List Token} (height : height? 0 (m.scanOrder list) = some 1)
    (called : ∀ t ∈ list, t.kind = .call → (sheet.args? t.handle).isSome)
    (arguments : ∀ t ∈ list, t.kind = .call → ∀ args, sheet.args? t.handle = some args →
      ∀ arg ∈ args, Complete m sheet arg) : Complete m sheet list

/-- All calls have arguments, and these are complete. -/
def ArgumentsComplete (m : Mode) (sheet : Sheet) (list : List Token) : Prop :=
  ∀ t ∈ list, t.kind = .call →
    ∃ args, sheet.args? t.handle = some args ∧ ∀ arg ∈ args, Complete m sheet arg

section

variable {m : Mode} {sheet : Sheet} {list : List Token}

theorem complete_iff : Complete m sheet list ↔
    height? 0 (m.scanOrder list) = some 1 ∧ ArgumentsComplete m sheet list := by
  constructor
  · rintro ⟨hheight, hcalled, harguments⟩
    refine ⟨hheight, fun t ht hk => ?_⟩
    obtain ⟨args, hargs⟩ := Option.isSome_iff_exists.1 (hcalled t ht hk)
    exact ⟨args, hargs, harguments t ht hk args hargs⟩
  · rintro ⟨hheight, hcomplete⟩
    refine .intro hheight (fun t ht hk => ?_) fun t ht hk args hargs => ?_
    · obtain ⟨args, hargs, -⟩ := hcomplete t ht hk
      exact Option.isSome_iff_exists.2 ⟨args, hargs⟩
    · obtain ⟨args', hargs', hall⟩ := hcomplete t ht hk
      obtain rfl := Option.some.inj (hargs.symm.trans hargs')
      exact hall

theorem ArgumentsComplete.of_subset {xs ys : List Token} (h : ArgumentsComplete m sheet ys)
    (hsub : xs ⊆ ys) : ArgumentsComplete m sheet xs :=
  fun t ht => h t (hsub ht)

theorem ArgumentsComplete.append {xs ys : List Token} (hx : ArgumentsComplete m sheet xs)
    (hy : ArgumentsComplete m sheet ys) : ArgumentsComplete m sheet (xs ++ ys) := by
  intro t ht
  rcases List.mem_append.1 ht with ht | ht
  · exact hx t ht
  · exact hy t ht

/-- A token that is no call has no arguments to be complete. -/
theorem ArgumentsComplete.singleton {t : Token} (hk : t.kind ≠ .call) :
    ArgumentsComplete m sheet [t] := by
  intro u hu hcall
  obtain rfl := List.mem_singleton.1 hu
  exact absurd hcall hk

theorem Complete.surplus_eq (h : Complete m sheet list) : surplus list = 1 := by
  have hheight := height?_eq (complete_iff.1 h).1
  rw [surplus_perm (m.scanOrder_perm list)] at hheight
  simpa using hheight.symm

end

/-! ## What evaluates is complete -/

variable {job : Job} {now : Surroundings} {inner : Option Meaning}

theorem operands?_eq_some {stack below : List Float} {left right : Float}
    (h : job.operands? stack = some (left, right, below)) :
    stack.length = below.length + 2 := by
  unfold Job.operands? at h
  match stack with
  | [] | [_] => cases h
  | newest :: older :: rest => cases hm : job.mode <;> simp [hm] at h <;> simp [h]

theorem Does.raise? {t : Token} {stack stack' : List Float}
    (h : Does job now inner t stack stack') :
    raise? t.kind stack.length = some stack'.length := by
  unfold Does at h
  cases hk : t.kind with rw [hk] at h
  | number | constant =>
    obtain ⟨v, -, rfl⟩ := h
    rfl
  | call =>
    obtain ⟨_, _, _, _, v, -, -, -, -, -, rfl⟩ := h
    rfl
  | operator =>
    obtain ⟨_, _, below, _, v, hstack, -, -, rfl⟩ := h
    rw [operands?_eq_some hstack]
    rfl
  | openBracket | closeBracket | separator | other => exact h.elim

/-- **The height of the stack** follows the tokens. -/
theorem Runs.height? {ts : List Token} {stack stack' : List Float}
    (h : Runs job now inner ts stack stack') :
    height? stack.length ts = some stack'.length := by
  induction ts generalizing stack with
  | nil => rw [show stack' = stack from h, Evaluate.height?]
  | cons t rest ih =>
    obtain ⟨between, hdo, hrun⟩ := h
    rw [Evaluate.height?, hdo.raise?]
    exact ih hrun

/-- **What evaluates is complete.** -/
theorem Evaluates.complete {levels : Nat} {list : List Token} {value : Float}
    (h : Evaluates job now levels list value) : Complete job.mode now.sheet list := by
  induction levels generalizing list value with
  | zero =>
    refine complete_iff.2 ⟨(evaluates_iff.1 h).height?, fun t ht hk => ?_⟩
    obtain ⟨_, _, hlevels, -⟩ := h.arguments ht hk
    cases hlevels
  | succ levels ih =>
    refine complete_iff.2 ⟨(evaluates_iff.1 h).height?, fun t ht hk => ?_⟩
    obtain ⟨_, args, ⟨⟩, hargs, hvalues⟩ := h.arguments ht hk
    refine ⟨args, hargs, fun arg harg => ?_⟩
    obtain ⟨value, hvalue⟩ := hvalues arg harg
    exact ih hvalue

end Evaluate

/-! ## Listings of trees are complete -/

namespace Tree

open Evaluate

variable {m : Mode} {sheet : Sheet}

theorem listing_node_perm (operator : Token) (left right : Tree) :
    ((node operator left right).listing m).Perm
      (operator :: (left.listing m ++ right.listing m)) := by
  cases m
  · exact List.perm_append_comm
  · exact .refl _

/-- The listing of a tree puts one value on any stack. -/
theorem height?_listing {t : Tree} (hp : t.Proper) (n : Nat) :
    height? n (m.scanOrder (t.listing m)) = some (n + 1) := by
  have one (token : Token) (n : Nat) (h : raise? token.kind n = some (n + 1)) :
      height? n (m.scanOrder [token]) = some (n + 1) := by
    cases m <;> simp [Mode.scanOrder, height?, h]
  induction t generalizing n with
  | value token =>
    refine one token n ?_
    simp only [Proper] at hp
    cases hk : token.kind <;> simp_all [Kind.isValue, raise?]
  | group inner ih => exact ih hp n
  | call name args => exact one name n (by rw [hp.1]; rfl)
  | node operator left right ihl ihr =>
    obtain ⟨hk, hl, hr⟩ := hp
    cases m with
    | rpn =>
      simp only [Mode.scanOrder] at ihl ihr ⊢
      simp [listing, height?_append, ihl hl, ihr hr, height?, hk, raise?]
    | pn =>
      simp only [Mode.scanOrder] at ihl ihr ⊢
      simp [listing, height?_append, ihl hl, ihr hr, height?, hk, raise?]

mutual

/-- The calls in the listing of a tree have the arguments of the tree. -/
theorem argumentsComplete : (t : Tree) → t.Proper → t.Attached m sheet →
    ArgumentsComplete m sheet (t.listing m)
  | .value token, hp, _ => by
    refine .singleton fun hk => ?_
    rw [Proper, hk] at hp
    cases hp
  | .group inner, hp, ha => argumentsComplete inner hp (by simpa [Attached, calls] using ha)
  | .call name args, ⟨_, hp⟩, ha => by
    intro t ht _
    obtain rfl := List.mem_singleton.1 ht
    refine ⟨_, ha (t, args) (by simp [calls]), ?_⟩
    exact argumentsCompleteAll args hp fun c hc => ha c (by simp [calls, hc])
  | .node operator left right, ⟨hk, hl, hr⟩, ha => by
    have hleft := argumentsComplete left hl fun c hc => ha c (by simp [calls, hc])
    have hright := argumentsComplete right hr fun c hc => ha c (by simp [calls, hc])
    have hroot : ArgumentsComplete m sheet [operator] := .singleton (by simp [hk])
    exact (hroot.append (hleft.append hright)).of_subset
      fun u hu => (listing_node_perm operator left right).mem_iff.1 hu

/-- The same of the arguments of a call. -/
theorem argumentsCompleteAll : (ts : List Tree) → ProperAll ts →
    (∀ c ∈ callsOf ts, sheet.args? c.1.handle = some (c.2.map (listing m))) →
    ∀ arg ∈ ts.map (listing m), Complete m sheet arg
  | [], _, _ => by simp
  | t :: rest, ⟨hp, hps⟩, ha => by
    intro arg harg
    rcases List.mem_cons.1 harg with rfl | harg
    · exact complete_iff.2 ⟨height?_listing hp 0,
        argumentsComplete t hp fun c hc => ha c (by simp [callsOf, hc])⟩
    · exact argumentsCompleteAll rest hps (fun c hc => ha c (by simp [callsOf, hc])) arg harg

end

/-- **The listing of a tree is complete.** -/
theorem complete_listing {t : Tree} (hp : t.Proper) (ha : t.Attached m sheet) :
    Complete m sheet (t.listing m) :=
  complete_iff.2 ⟨height?_listing hp 0, t.argumentsComplete hp ha⟩

end Tree

/-! ## How a complete listing can fail -/

/-- An operator found no two operands, or a listing did not leave one value. -/
def Failure.malformed : Failure → Bool
  | .eval ⟨.missingOperands _, _, _, _⟩ | .eval ⟨.stackLength, _, _, _⟩ => true
  | _ => false

namespace Evaluate

variable {α β : Type} {job : Job} {now : Surroundings} {post : α → Prop} {post' : β → Prop}

/-- A computation that answers as it should, or fails, but not over a malformed listing. -/
def Safe (now : Surroundings) (post : α → Prop) (c : Run α) : Prop :=
  match c.eager now with
  | .ok value => post value
  | .error failure => failure.malformed = false

theorem Safe.bind {c : Run α} {f : α → Run β} (hc : Safe now post c)
    (hf : ∀ a, post a → Safe now post' (f a)) : Safe now post' (c.bind f) := by
  unfold Safe at hc ⊢
  rw [Stepwise.eager_bind]
  cases h : c.eager now with
  | error failure =>
    rw [h] at hc
    exact hc
  | ok a =>
    rw [h] at hc
    exact hf a hc

theorem Safe.look {next : Surroundings → Run α} (h : Safe now post (next now)) :
    Safe now post (.look next) := h

theorem Safe.stop {cause : EvalCause} {token : Option Token} {stack : List Float}
    (h : ∀ token stack source, (Failure.eval ⟨cause, token, stack, source⟩).malformed = false) :
    Safe now post (job.stop cause token stack) := h _ _ _

theorem Safe.apply (function : Function) (args : List Float) (token : Token)
    (stack : List Float) : Safe now (fun _ => True) (job.apply function args token stack) := by
  rw [Job.apply]
  cases function (job.draws token.handle) args with
  | ok v => trivial
  | error reason => exact .stop fun _ _ _ => rfl

variable {frame : Frame} {deeper : Option Job.Argument} {token : Token} {index : Nat}
  {stack : List Float}

theorem Safe.number : Safe now (fun s => s.length = stack.length + 1)
    (job.number frame token index stack) := by
  rw [Job.number]
  cases Literal.read? token.text with
  | none => exact .stop fun _ _ _ => rfl
  | some v => exact rfl

theorem Safe.constant : Safe now (fun s => s.length = stack.length + 1)
    (job.constant frame token index stack) := by
  refine .look ?_
  cases now.registries.constants.find? token.text with
  | none => exact .stop fun _ _ _ => rfl
  | some v => exact rfl

/-- An operator with two values below it does not miss any. -/
theorem Safe.operator {n : Nat} (h : stack.length = n + 2) :
    Safe now (fun s => s.length = n + 1) (job.operator frame token index stack) := by
  obtain ⟨left, right, below, hoperands⟩ :
      ∃ left right below, job.operands? stack = some (left, right, below) := by
    match stack, h with
    | newest :: older :: below, _ => cases hm : job.mode <;> simp [Job.operands?, hm]
  have hbelow : below.length = n := by have := operands?_eq_some hoperands; omega
  rw [Job.operator, hoperands]
  refine .look ?_
  cases now.registries.operators.find? token.text with
  | none => exact .stop fun _ _ _ => rfl
  | some op =>
    refine (Safe.apply op.function [left, right] token below).bind fun v _ => ?_
    exact congrArg (· + 1) hbelow

theorem Safe.argumentValues {argument : List Token → Run Float} {args : List (List Token)}
    (h : ∀ arg ∈ args, Safe now (fun _ => True) (argument arg)) :
    Safe now (fun _ => True) (Job.argumentValues argument args) := by
  induction args with
  | nil => trivial
  | cons list rest ih =>
    refine (h list List.mem_cons_self).bind fun _ _ => ?_
    exact (ih fun arg harg => h arg (List.mem_cons_of_mem _ harg)).bind fun _ _ => trivial

/-- The arguments of a token can be evaluated safely, as far as they can be evaluated at all. -/
def ArgumentsSafe (now : Surroundings) (deeper : Option Job.Argument) (token : Token) : Prop :=
  ∀ argument ∈ deeper, ∀ args, now.sheet.args? token.handle = some args →
    ∀ arg ∈ args, Safe now (fun _ => True) (argument token arg)

theorem Safe.call (h : ArgumentsSafe now deeper token) :
    Safe now (fun s => s.length = stack.length + 1) (job.call frame deeper token index stack) := by
  refine .look ?_
  cases now.registries.functions.find? token.text with
  | none => exact .stop fun _ _ _ => rfl
  | some function =>
    cases hargs : now.sheet.args? token.handle with
    | none => exact .stop fun _ _ _ => rfl
    | some args =>
      cases deeper with
      | none => exact rfl
      | some argument =>
        refine (Safe.argumentValues (h argument rfl args hargs)).bind fun values _ => ?_
        exact (Safe.apply function values token stack).bind fun v _ => rfl

/-- A token that finds what it needs raises the stack as its kind says. -/
theorem Safe.single {n : Nat} (hraise : raise? token.kind stack.length = some n)
    (hcall : token.kind = .call → ArgumentsSafe now deeper token) :
    Safe now (fun s => s.length = n) (job.single frame deeper token index stack) := by
  rw [Job.single]
  cases hk : token.kind with rw [hk] at hraise
  | number =>
    obtain rfl := Option.some.inj hraise
    exact .number
  | constant =>
    obtain rfl := Option.some.inj hraise
    exact .constant
  | call =>
    obtain rfl := Option.some.inj hraise
    exact .call (hcall hk)
  | operator =>
    rcases hlength : stack.length with _ | _ | below
    · rw [hlength] at hraise
      cases hraise
    · rw [hlength] at hraise
      cases hraise
    · rw [hlength] at hraise
      obtain rfl := Option.some.inj hraise
      exact .operator hlength
  | openBracket | closeBracket | separator | other => cases hraise

theorem Safe.tokens {list : List (Token × Nat)} {n : Nat}
    (hheight : height? stack.length (list.map Prod.fst) = some n)
    (hcalls : ∀ t ∈ list.map Prod.fst, t.kind = .call → ArgumentsSafe now deeper t) :
    Safe now (fun s => s.length = n) (job.tokens frame deeper list stack) := by
  induction list generalizing stack with
  | nil => exact Option.some.inj hheight
  | cons entry rest ih =>
    obtain ⟨t, i⟩ := entry
    rw [List.map_cons, height?, Option.bind_eq_some_iff] at hheight
    obtain ⟨k, hraise, hheight⟩ := hheight
    rw [Job.tokens_cons]
    refine (Safe.single hraise (hcalls t (by simp))).bind fun s hs => ?_
    exact ih (by rwa [hs]) fun u hu => hcalls u (by simp_all)

theorem Safe.listing {list : List Token} (hheight : height? 0 (job.mode.scanOrder list) = some 1)
    (hcalls : ∀ t ∈ list, t.kind = .call → ArgumentsSafe now deeper t) :
    Safe now (fun _ => True) (job.listing frame deeper list) := by
  have hmap := job.mode.map_scanOrder Prod.fst list.zipIdx
  rw [List.zipIdx_map_fst] at hmap
  refine (Safe.tokens (n := 1) (by rwa [hmap]) fun t ht => ?_).bind fun s hs => ?_
  · rw [hmap] at ht
    exact hcalls t ((job.mode.scanOrder_perm list).mem_iff.1 ht)
  · obtain ⟨v, rfl⟩ := List.length_eq_one_iff.1 hs
    trivial

/-- **A complete listing does not turn out malformed**, whatever else may keep it from having a
value. -/
theorem Complete.safe_evaluate {levels : Nat} {list : List Token}
    (h : Complete job.mode now.sheet list) :
    Safe now (fun _ => True) (job.evaluate levels frame list) := by
  induction levels generalizing frame list with
  | zero =>
    exact .listing (complete_iff.1 h).1 fun t _ _ argument hargument => by cases hargument
  | succ levels ih =>
    obtain ⟨hheight, hargs⟩ := complete_iff.1 h
    refine .listing hheight fun t ht hk argument hargument args hattached arg harg => ?_
    obtain rfl := Option.some.inj hargument
    obtain ⟨args', hargs', hall⟩ := hargs t ht hk
    obtain rfl := Option.some.inj (hattached.symm.trans hargs')
    exact ih (hall arg harg)

theorem Complete.not_malformed {list : List Token} {failure : Failure}
    (h : Complete job.mode now.sheet list)
    (hrun : (job.run list).eager now = .error failure) : failure.malformed = false := by
  have hsafe : Safe now (fun _ => True) (job.run list) :=
    (h.safe_evaluate).bind fun _ _ => trivial
  rwa [Safe, hrun] at hsafe

end Evaluate

end Polish
