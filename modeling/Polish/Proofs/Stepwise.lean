import Polish.Stepwise

/-!
# Computations in parts

How a computation ends, from how its parts end: `Stepwise.eager_bind_ok` takes it apart.

A computation that is pulled step by step may see other surroundings each time it looks.
`Stepwise.DependsOn` says that it goes on in the same way as long as some view of them stays the
same; then it does not matter for its end when the other things change.  `Stepwise.Heeds` says so of
a computation whose answers are known to be of some sort, for a part that comes after it may depend
on no more than the view only because of that.

`Stepwise.Shows` says of what is handed out on the way that it fits the end.

`Stepwise.Keeps` says of what sort the answers and the failures are, whatever a computation finds
when it looks, as long as that is of some sort too.

## Which of them is for what

All four are predicates on computations that go through `bind`, and one would do in place of several
if it said everything at once.  They are kept apart because their proofs need different things of
the surroundings.  `Shows` and the end are about surroundings that do not change, `DependsOn` and
`Heeds` are about surroundings that change but for a view of them, and `Keeps` holds whatever is
found.
-/

set_option autoImplicit false

namespace Polish

namespace Stepwise

variable {ε σ φ α β : Type} {e : ε}

@[simp] theorem eager_answer {a : α} : (answer a : Stepwise ε σ φ α).eager e = .ok a := rfl

@[simp] theorem eager_fail {f : φ} : (fail f : Stepwise ε σ φ α).eager e = .error f := rfl

@[simp] theorem eager_look {next : ε → Stepwise ε σ φ α} :
    (look next).eager e = (next e).eager e := rfl

@[simp] theorem eager_emit {step : σ} {next : Stepwise ε σ φ α} :
    (emit step next).eager e = next.eager e := rfl

/-- A computation in two parts ends well if both parts do. -/
theorem eager_bind_ok {c : Stepwise ε σ φ α} {f : α → Stepwise ε σ φ β} {b : β} :
    (c.bind f).eager e = .ok b ↔ ∃ a, c.eager e = .ok a ∧ (f a).eager e = .ok b := by
  rw [eager_bind]
  cases c.eager e with
  | ok a => simp [Except.bind]
  | error failure => simp [Except.bind]

/-- A first part that ends well can be left out. -/
theorem eager_bind_of_ok {c : Stepwise ε σ φ α} {a : α} (h : c.eager e = .ok a)
    (f : α → Stepwise ε σ φ β) : (c.bind f).eager e = (f a).eager e := by
  rw [eager_bind, h]
  rfl

theorem eager_attempt {ψ : Type} (c : Stepwise ε σ φ α) :
    (c.attempt : Stepwise ε σ ψ (Except φ α)).eager e = .ok (c.eager e) := by
  induction c with
  | answer | fail => rfl
  | look next ih => exact ih e
  | emit step next ih => exact ih

/-- The steps of two parts, if the first one ends well. -/
theorem trace_bind_ok {c : Stepwise ε σ φ α} {a : α} (h : (c.trace e).2 = .ok a)
    (f : α → Stepwise ε σ φ β) :
    (c.bind f).trace e = ((c.trace e).1 ++ ((f a).trace e).1, ((f a).trace e).2) := by
  rw [trace_bind]
  rcases hc : c.trace e with ⟨steps, result⟩
  rw [hc] at h
  obtain rfl : result = .ok a := h
  rfl

/-- A first part that fails is all there is. -/
theorem trace_bind_error {c : Stepwise ε σ φ α} {failure : φ}
    (h : (c.trace e).2 = .error failure) (f : α → Stepwise ε σ φ β) :
    (c.bind f).trace e = ((c.trace e).1, .error failure) := by
  rw [trace_bind]
  rcases hc : c.trace e with ⟨steps, result⟩
  rw [hc] at h
  obtain rfl : result = .error failure := h
  rfl

/-- The steps of a first part come first, whatever comes after it. -/
theorem trace_bind_begins (c : Stepwise ε σ φ α) (f : α → Stepwise ε σ φ β) :
    (c.trace e).1 <+: ((c.bind f).trace e).1 := by
  cases hresult : (c.trace e).2 with
  | error failure => simp only [trace_bind_error hresult, List.prefix_rfl]
  | ok a =>
    rw [trace_bind_ok hresult]
    exact List.prefix_append _ _

/-- A pull takes nothing away from how a computation ends. -/
theorem eager_of_resume {e : ε} {c : Stepwise ε σ φ α} :
    (∀ step rest, c.resume e = .inl (step, rest) → rest.eager e = c.eager e) ∧
      ∀ result, c.resume e = .inr result → c.eager e = result := by
  induction c with
  | answer | fail => exact ⟨nofun, fun result h => Sum.inr.inj h⟩
  | look next ih => exact ih e
  | emit step next ih =>
    refine ⟨fun step' rest h => ?_, nofun⟩
    obtain ⟨-, rfl⟩ := Prod.mk.inj (Sum.inl.inj h)
    rfl

/-! ## Views of the surroundings -/

section

variable {ζ : Type} {view : ε → ζ}

/-- All looks at surroundings of one view go on in the same way. -/
def DependsOn (view : ε → ζ) : Stepwise ε σ φ α → Prop
  | answer _ | fail _ => True
  | look next => (∀ e e', view e = view e' → next e = next e') ∧ ∀ e, (next e).DependsOn view
  | emit _ next => next.DependsOn view

theorem DependsOn.bind {c : Stepwise ε σ φ α} {f : α → Stepwise ε σ φ β}
    (hc : c.DependsOn view) (hf : ∀ a, (f a).DependsOn view) : (c.bind f).DependsOn view := by
  induction c with
  | answer a => exact hf a
  | fail => trivial
  | look next ih =>
    exact ⟨fun e e' h => congrArg (Stepwise.bind · f) (hc.1 e e' h), fun e => ih e (hc.2 e)⟩
  | emit step next ih => exact ih hc

theorem DependsOn.attempt {ψ : Type} {c : Stepwise ε σ φ α} (hc : c.DependsOn view) :
    (c.attempt : Stepwise ε σ ψ (Except φ α)).DependsOn view := by
  induction c with
  | answer | fail => trivial
  | look next ih =>
    exact ⟨fun e e' h => congrArg Stepwise.attempt (hc.1 e e' h), fun e => ih e (hc.2 e)⟩
  | emit step next ih => exact ih hc

/-- The end depends on the view only. -/
theorem DependsOn.eager_eq {c : Stepwise ε σ φ α} (hc : c.DependsOn view) {e e' : ε}
    (h : view e = view e') : c.eager e = c.eager e' := by
  induction c with
  | answer | fail => rfl
  | look next ih =>
    rw [eager_look, eager_look, hc.1 e e' h]
    exact ih e' (hc.2 e')
  | emit step next ih => exact ih hc

/-- All looks at surroundings of one view go on in the same way, and the answers are of some
sort. -/
def Heeds (view : ε → ζ) (post : α → Prop) : Stepwise ε σ φ α → Prop
  | answer value => post value
  | fail _ => True
  | look next => (∀ e e', view e = view e' → next e = next e') ∧ ∀ e, (next e).Heeds view post
  | emit _ next => next.Heeds view post

theorem Heeds.bind {p : α → Prop} {q : β → Prop} {c : Stepwise ε σ φ α}
    {f : α → Stepwise ε σ φ β} (hc : c.Heeds view p) (hf : ∀ a, p a → (f a).Heeds view q) :
    (c.bind f).Heeds view q := by
  induction c with
  | answer a => exact hf a hc
  | fail => trivial
  | look next ih =>
    exact ⟨fun e e' h => congrArg (Stepwise.bind · f) (hc.1 e e' h), fun e => ih e (hc.2 e)⟩
  | emit step next ih => exact ih hc

theorem Heeds.dependsOn {post : α → Prop} {c : Stepwise ε σ φ α} (hc : c.Heeds view post) :
    c.DependsOn view := by
  induction c with
  | answer | fail => trivial
  | look next ih => exact ⟨hc.1, fun e => ih e (hc.2 e)⟩
  | emit step next ih => exact ih hc

theorem DependsOn.rest {c : Stepwise ε σ φ α} (hc : c.DependsOn view) {e : ε} {step : σ}
    {rest : Stepwise ε σ φ α} (h : c.resume e = .inl (step, rest)) : rest.DependsOn view := by
  induction c with
  | answer | fail => cases h
  | look next ih => exact ih e (hc.2 e) h
  | emit step' next ih =>
    obtain ⟨-, rfl⟩ := Prod.mk.inj (Sum.inl.inj h)
    exact hc

end

/-! ## What is shown on the way -/

section

variable {c : Stepwise ε σ φ α} {f : α → Stepwise ε σ φ β} {ended ended' : List σ → α → Prop}
  {failed failed' : List σ → Prop}

/-- The steps fit the answer if there is one, and otherwise they are those of a failure. -/
def Shows (e : ε) (c : Stepwise ε σ φ α) (ended : List σ → α → Prop) (failed : List σ → Prop) :
    Prop :=
  match c.trace e with
  | (steps, .ok a) => ended steps a
  | (steps, .error _) => failed steps

theorem shows_answer {a : α} :
    Shows e (answer a : Stepwise ε σ φ α) ended failed ↔ ended [] a := Iff.rfl

theorem shows_fail {failure : φ} :
    Shows e (fail failure : Stepwise ε σ φ α) ended failed ↔ failed [] := Iff.rfl

theorem shows_look {next : ε → Stepwise ε σ φ α} :
    Shows e (look next) ended failed ↔ Shows e (next e) ended failed := Iff.rfl

theorem shows_emit {step : σ} : Shows e (emit step c) ended failed ↔
    Shows e c (fun steps => ended (step :: steps)) (fun steps => failed (step :: steps)) := by
  rw [Shows, Shows, trace]
  rcases c.trace e with ⟨steps, result⟩
  cases result <;> rfl

/-- The steps of two parts. -/
theorem shows_bind {ended : List σ → β → Prop} : Shows e (c.bind f) ended failed ↔
    Shows e c (fun steps a => Shows e (f a) (fun rest => ended (steps ++ rest))
      (fun rest => failed (steps ++ rest))) failed := by
  rw [Shows, Shows, trace_bind]
  rcases c.trace e with ⟨steps, result⟩
  cases result with
  | error failure => rfl
  | ok a =>
    dsimp only [Shows]
    rcases (f a).trace e with ⟨rest, result⟩
    cases result <;> rfl

theorem Shows.mono (h : Shows e c ended failed) (hended : ∀ steps a, ended steps a → ended' steps a)
    (hfailed : ∀ steps, failed steps → failed' steps) : Shows e c ended' failed' := by
  rw [Shows] at h ⊢
  rcases hc : c.trace e with ⟨steps, result⟩
  rw [hc] at h
  cases result with
  | error failure => exact hfailed steps h
  | ok a => exact hended steps a h

/-- The steps of a failure come with the failure. -/
theorem Shows.failing (h : Shows e c ended failed) :
    Shows e c ended fun steps => (∃ failure, c.eager e = .error failure) ∧ failed steps := by
  rw [Shows, ← trace_snd]
  rw [Shows] at h
  rcases hc : c.trace e with ⟨steps, result⟩
  rw [hc] at h
  cases result with
  | error failure => exact ⟨⟨failure, rfl⟩, h⟩
  | ok a => exact h

theorem Shows.of_ok (h : Shows e c ended failed) {a : α} (ha : c.eager e = .ok a) :
    ended (c.trace e).1 a := by
  rw [← trace_snd] at ha
  rw [Shows] at h
  rcases hc : c.trace e with ⟨steps, result⟩
  rw [hc] at h ha
  obtain rfl : result = .ok a := ha
  exact h

theorem Shows.of_error (h : Shows e c ended failed) {failure : φ}
    (hf : c.eager e = .error failure) : failed (c.trace e).1 := by
  rw [← trace_snd] at hf
  rw [Shows] at h
  rcases hc : c.trace e with ⟨steps, result⟩
  rw [hc] at h hf
  obtain rfl : result = .error failure := hf
  exact h

end

/-! ## What answers and failures are like -/

section

variable {finds : ε → Prop} {fails : φ → Prop} {post : α → Prop}

/-- If all that it ever finds is of one sort, a computation answers with values of another sort or
fails in one of some ways. -/
def Keeps (finds : ε → Prop) (fails : φ → Prop) (post : α → Prop) : Stepwise ε σ φ α → Prop
  | answer value => post value
  | fail failure => fails failure
  | look next => ∀ e, finds e → (next e).Keeps finds fails post
  | emit _ next => next.Keeps finds fails post

theorem Keeps.bind {q : β → Prop} {c : Stepwise ε σ φ α} {f : α → Stepwise ε σ φ β}
    (hc : c.Keeps finds fails post) (hf : ∀ a, post a → (f a).Keeps finds fails q) :
    (c.bind f).Keeps finds fails q := by
  induction c with
  | answer a => exact hf a hc
  | fail => exact hc
  | look next ih => exact fun e he => ih e (hc e he)
  | emit step next ih => exact ih hc

theorem Keeps.of_ok {c : Stepwise ε σ φ α} (hc : c.Keeps finds fails post) (he : finds e) {a : α}
    (h : c.eager e = .ok a) : post a := by
  induction c with
  | answer =>
    obtain rfl := Except.ok.inj h
    exact hc
  | fail => cases h
  | look next ih => exact ih e (hc e he) h
  | emit step next ih => exact ih hc h

theorem Keeps.of_error {c : Stepwise ε σ φ α} (hc : c.Keeps finds fails post) (he : finds e)
    {failure : φ} (h : c.eager e = .error failure) : fails failure := by
  induction c with
  | answer => cases h
  | fail =>
    obtain rfl := Except.error.inj h
    exact hc
  | look next ih => exact ih e (hc e he) h
  | emit step next ih => exact ih hc h

end

end Stepwise

/-! ## Pulls -/

namespace Stepper

variable {ε σ φ α : Type} {e : ε} {rest rest' : Stepwise ε σ φ α}

theorem step_of_resume {step : σ} (h : rest.resume e = .inl (step, rest')) :
    (live rest).step e = (.ok (.step step), live rest') := by
  rw [Stepper.step, h]

theorem done_of_resume {value : α} (h : rest.resume e = .inr (.ok value)) :
    (live rest).step e = (.ok (.done (some value)), finished (some value)) := by
  rw [Stepper.step, h]

end Stepper

/-- Two results are the same, with the known one on the left. -/
theorem ok_eq_ok {φ α : Type} {a b : α} : (Except.ok a : Except φ α) = .ok b ↔ b = a := by
  rw [Except.ok.injEq, eq_comm]

theorem toOption_eq_some {φ α : Type} {result : Except φ α} {a : α} :
    result.toOption = some a ↔ result = .ok a := by
  cases result <;> simp [Except.toOption]

theorem mapError_eq_ok {φ ψ α : Type} {result : Except φ α} {f : φ → ψ} {a : α} :
    result.mapError f = .ok a ↔ result = .ok a := by
  constructor
  · intro h
    cases result with
    | ok b =>
      obtain rfl := Except.ok.inj h
      rfl
    | error failure => cases h
  · rintro rfl
    rfl

/-- A result that comes of two others. -/
theorem except_bind_ok {φ α β : Type} {c : Except φ α} {f : α → Except φ β} {b : β} :
    (c >>= f) = .ok b ↔ ∃ a, c = .ok a ∧ f a = .ok b := by
  cases c with
  | ok a => simp [bind, Except.bind]
  | error failure => simp [bind, Except.bind]

end Polish
