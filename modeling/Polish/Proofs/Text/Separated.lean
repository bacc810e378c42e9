import Mathlib.Data.List.Forall2

/-!
# Texts that can be taken apart

A printed thing can be told from its text if, from the left, each part of the text settles what was
printed and where that ends.  `Text.Determines` says this of two texts, given the characters that
may come behind them.

* `determines_of_plain` — a word ends where a character comes that is in no word;
* `determines_intercalate` — things with separators between them end where a separator might come
  and does not.

## How the proof goes

Each statement says what comes behind the two texts as well, for it is by that that the next part is
told.  A list of things ends where its separator does not come.  So the characters that may come
behind the whole list must not be the mark of the separator, and if the list may be empty, none of
the things may begin with one of them.
-/

set_option autoImplicit false

namespace Polish.Text

/-- If the two texts stand at the beginning of one text, and what is behind them begins with a stop
or is empty, then the same is behind them, and what is claimed of them holds. -/
def Determines (stops x y : List Char) (claim : Prop) : Prop :=
  ∀ u v : List Char, (∀ c ∈ u.head?, c ∈ stops) → (∀ c ∈ v.head?, c ∈ stops) →
    x ++ u = y ++ v → claim ∧ u = v

/-- A word without stops ends at the first one. -/
theorem determines_of_plain {stops x y : List Char} (hx : ∀ c ∈ x, c ∉ stops)
    (hy : ∀ c ∈ y, c ∉ stops) : Determines stops x y (x = y) := by
  intro u v hu hv heq
  rcases List.append_eq_append_iff.1 heq with ⟨more, rfl, rfl⟩ | ⟨more, rfl, rfl⟩
  · cases more with
    | nil => exact ⟨(List.append_nil x).symm, rfl⟩
    | cons c more => exact absurd (hu c rfl) (hy c (by simp))
  · cases more with
    | nil => exact ⟨List.append_nil y, rfl⟩
    | cons c more => exact absurd (hv c rfl) (hx c (by simp))

/-! ## Separators -/

theorem intercalate_cons (separator x : List Char) (xs : List (List Char)) :
    separator.intercalate (x :: xs) = x ++ xs.flatMap (separator ++ ·) := by
  induction xs generalizing x with
  | nil => simp
  | cons y ys ih =>
    rw [List.intercalate_cons_cons, ih, List.flatMap_cons, List.append_assoc, List.append_assoc]

section

variable {α β : Type} {f : α → List Char} {g : β → List Char} {R : α → β → Prop} {mark : Char}
  {blanks stops stops' : List Char} {xs : List α} {ys : List β}

/-- What comes behind one of several things is the mark of a separator, or what comes behind all of
them. -/
theorem head?_behind {u : List Char} (hmark : mark ∈ stops)
    (hu : ∀ c ∈ u.head?, c ∈ stops ∧ c ≠ mark) :
    ∀ c ∈ (xs.flatMap (fun x => (mark :: blanks) ++ f x) ++ u).head?, c ∈ stops := by
  cases xs with
  | nil => exact fun c hc => (hu c hc).1
  | cons x xs =>
    rintro c hc
    obtain rfl := Option.some.inj hc
    exact hmark

theorem determines_flatMap (hmark : mark ∈ stops) (hstops : ∀ c ∈ stops', c ∈ stops ∧ c ≠ mark)
    (h : ∀ x ∈ xs, ∀ y ∈ ys, Determines stops (f x) (g y) (R x y)) :
    Determines stops' (xs.flatMap fun x => (mark :: blanks) ++ f x)
      (ys.flatMap fun y => (mark :: blanks) ++ g y) (List.Forall₂ R xs ys) := by
  intro u v hu hv heq
  have hu' := fun c hc => hstops c (hu c hc)
  have hv' := fun c hc => hstops c (hv c hc)
  induction xs generalizing ys with
  | nil =>
    cases ys with
    | nil => exact ⟨.nil, heq⟩
    | cons y ys =>
      rw [List.flatMap_nil, List.nil_append, List.flatMap_cons] at heq
      exact absurd rfl (hu' mark (heq ▸ rfl)).2
  | cons x xs ih =>
    cases ys with
    | nil =>
      rw [List.flatMap_nil, List.nil_append, List.flatMap_cons] at heq
      exact absurd rfl (hv' mark (heq ▸ rfl)).2
    | cons y ys =>
      simp only [List.flatMap_cons, List.append_assoc, List.append_cancel_left_eq] at heq
      obtain ⟨hxy, hrest⟩ := h x List.mem_cons_self y List.mem_cons_self _ _
        (head?_behind hmark hu') (head?_behind hmark hv') heq
      obtain ⟨hall, hbehind⟩ := ih (fun x hx y hy =>
        h x (List.mem_cons_of_mem _ hx) y (List.mem_cons_of_mem _ hy)) hrest
      exact ⟨.cons hxy hall, hbehind⟩

/-- **Things with separators between them** can be told from their text if each of them can, as long
as none begins like what may come behind all of them. -/
theorem determines_intercalate (hmark : mark ∈ stops)
    (hstops : ∀ c ∈ stops', c ∈ stops ∧ c ≠ mark)
    (h : ∀ x ∈ xs, ∀ y ∈ ys, Determines stops (f x) (g y) (R x y))
    (hxs : ∀ x ∈ xs, ∃ c t, f x = c :: t ∧ c ∉ stops')
    (hys : ∀ y ∈ ys, ∃ c t, g y = c :: t ∧ c ∉ stops') :
    Determines stops' ((mark :: blanks).intercalate (xs.map f))
      ((mark :: blanks).intercalate (ys.map g)) (List.Forall₂ R xs ys) := by
  intro u v hu hv heq
  cases xs with
  | nil =>
    cases ys with
    | nil => exact ⟨.nil, heq⟩
    | cons y ys =>
      obtain ⟨c, t, hcons, hplain⟩ := hys y List.mem_cons_self
      rw [List.map_nil, List.intercalate_nil, List.nil_append, List.map_cons, intercalate_cons,
        hcons] at heq
      exact absurd (hu c (heq ▸ rfl)) hplain
  | cons x xs =>
    cases ys with
    | nil =>
      obtain ⟨c, t, hcons, hplain⟩ := hxs x List.mem_cons_self
      rw [List.map_nil, List.intercalate_nil, List.nil_append, List.map_cons, intercalate_cons,
        hcons] at heq
      exact absurd (hv c (heq ▸ rfl)) hplain
    | cons y ys =>
      simp only [List.map_cons, intercalate_cons, List.flatMap_map, List.append_assoc] at heq
      obtain ⟨hxy, hrest⟩ := h x List.mem_cons_self y List.mem_cons_self _ _
        (head?_behind hmark fun c hc => hstops c (hu c hc))
        (head?_behind hmark fun c hc => hstops c (hv c hc)) heq
      obtain ⟨hall, hbehind⟩ := determines_flatMap hmark hstops (fun x hx y hy =>
        h x (List.mem_cons_of_mem _ hx) y (List.mem_cons_of_mem _ hy)) u v hu hv hrest
      exact ⟨.cons hxy hall, hbehind⟩

end

end Polish.Text
