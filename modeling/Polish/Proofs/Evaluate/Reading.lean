import Polish.Engine
import Polish.Proofs.Evaluate.Complete

/-!
# Reading a listing

A listing knows nothing of brackets, but otherwise it is a tree written down: newest token first,
either notation puts each operator before its operands.  A tree is `Legible` on a sheet if it has
no bracket, its tokens are of the kinds that its shape asks for, and its calls have the arguments
that stand on the sheet.

* `Tree.scanned_append_inj` — no listing begins with another one, so a legible tree is determined by
  its listing;
* `Evaluate.Complete.exists_tree` — every complete listing is that of a legible tree;
* `Evaluate.Job.run_iff_tree` — so evaluating any listing whatever succeeds exactly if it is the
  listing of a tree with a value, and gives that value.

## How the proof goes

That the tree is unique goes by induction on it, with anything behind its listing, since the listing
of an operand is followed by that of the other one.  A call is a single token in the listing.  What
makes the trees of two calls equal is the sheet, on which the listings of their arguments stand.

That there is a tree goes the way of an evaluation.  Where the evaluator has numbers on its stack,
there is a `row` of trees, and what a token does to the number of values, it can do to the row
(`exists_row_of_raise?`).  A listing that is complete leaves one tree.  The arguments of its calls
are complete listings, too, and the induction on `Complete` has their trees by then.
-/

set_option autoImplicit false

namespace Polish

namespace Tree

section

variable (m : Mode) (sheet : Sheet)

mutual

/-- Values, operators and calls, and no brackets; what calls are given stands on the sheet. -/
def Legible : Tree → Prop
  | value token => token.kind.isValue = true
  | group _ => False
  | call name args =>
    name.kind = .call ∧ sheet.args? name.handle = some (args.map (listing m)) ∧ LegibleAll args
  | node operator left right => operator.kind = .operator ∧ left.Legible ∧ right.Legible

/-- The same of several trees. -/
def LegibleAll : List Tree → Prop
  | [] => True
  | tree :: rest => tree.Legible ∧ LegibleAll rest

end

end

variable {m : Mode} {sheet : Sheet}

mutual

theorem Legible.proper : {t : Tree} → t.Legible m sheet → t.Proper
  | .value _, h => h
  | .call _ _, ⟨hk, _, ha⟩ => ⟨hk, properAll ha⟩
  | .node _ _ _, ⟨hk, hl, hr⟩ => ⟨hk, hl.proper, hr.proper⟩

theorem Legible.properAll : {ts : List Tree} → LegibleAll m sheet ts → ProperAll ts
  | [], _ => trivial
  | _ :: _, ⟨ht, hts⟩ => ⟨ht.proper, properAll hts⟩

end

mutual

theorem Legible.attached : {t : Tree} → t.Legible m sheet → t.Attached m sheet
  | .value _, _, _, hc => absurd hc List.not_mem_nil
  | .call name args, ⟨_, hentry, ha⟩, c, hc => by
    rcases List.mem_cons.1 hc with rfl | hc
    · exact hentry
    · exact attachedAll ha c hc
  | .node _ _ _, ⟨_, hl, hr⟩, c, hc =>
    (List.mem_append.1 hc).elim (hl.attached c) (hr.attached c)

theorem Legible.attachedAll : {ts : List Tree} → LegibleAll m sheet ts →
    ∀ c ∈ callsOf ts, sheet.args? c.1.handle = some (c.2.map (listing m))
  | [], _, _, hc => absurd hc List.not_mem_nil
  | _ :: _, ⟨ht, hts⟩, c, hc =>
    (List.mem_append.1 hc).elim (ht.attached c) (attachedAll hts c)

end

/-! ## A listing determines its tree -/

/-- The listing of a tree as a scan leaves it, newest token first. -/
def scanned (m : Mode) (t : Tree) : List Token := m.inOrder (t.listing m)

@[simp] theorem scanned_value (token : Token) : (value token).scanned m = [token] := by
  cases m <;> rfl

@[simp] theorem scanned_call (name : Token) (args : List Tree) :
    (call name args).scanned m = [name] := by
  cases m <;> rfl

@[simp] theorem scanned_node (operator : Token) (left right : Tree) :
    (node operator left right).scanned m
      = operator :: m.join (right.scanned m) (left.scanned m) := by
  cases m <;> simp [scanned, listing, Mode.inOrder, Mode.join]

theorem inOrder_scanned (m : Mode) (t : Tree) : m.inOrder (t.scanned m) = t.listing m :=
  m.inOrder_inOrder _

theorem scanned_inj {t u : Tree} : t.scanned m = u.scanned m ↔ t.listing m = u.listing m := by
  refine ⟨fun h => ?_, fun h => by rw [scanned, scanned, h]⟩
  rw [← inOrder_scanned, ← inOrder_scanned, h]

mutual

/-- **No scan of a tree begins with that of another one**, so what follows it is determined too. -/
theorem scanned_append_inj : (t : Tree) → t.Legible m sheet → ∀ u : Tree, u.Legible m sheet →
    ∀ xs ys, t.scanned m ++ xs = u.scanned m ++ ys → t = u ∧ xs = ys
  | .value a, ha, u, hu, xs, ys, h => by
    cases u with
    | value b => simpa using h
    | group => exact hu.elim
    | call name args =>
      obtain ⟨rfl, -⟩ : a = name ∧ _ := by simpa using h
      rw [Legible, hu.1] at ha
      cases ha
    | node operator left right =>
      obtain ⟨rfl, -⟩ : a = operator ∧ _ := by simpa using h
      rw [Legible, hu.1] at ha
      cases ha
  | .group _, ht, _, _, _, _, _ => ht.elim
  | .call name args, ⟨hk, hentry, ha⟩, u, hu, xs, ys, h => by
    cases u with
    | value b =>
      obtain ⟨rfl, -⟩ : name = b ∧ _ := by simpa using h
      rw [Legible, hk] at hu
      cases hu
    | group => exact hu.elim
    | call name' args' =>
      obtain ⟨rfl, rfl⟩ : name = name' ∧ xs = ys := by simpa using h
      obtain ⟨-, hentry', ha'⟩ := hu
      -- Both trees have the arguments that stand on the sheet.
      have hargs := Option.some.inj (hentry.symm.trans hentry')
      rw [listings_inj args ha args' ha' hargs]
      exact ⟨rfl, rfl⟩
    | node operator left right =>
      obtain ⟨rfl, -⟩ : name = operator ∧ _ := by simpa using h
      rw [hu.1] at hk
      cases hk
  | .node operator left right, ⟨hk, hl, hr⟩, u, hu, xs, ys, h => by
    cases u with
    | value b =>
      obtain ⟨rfl, -⟩ : operator = b ∧ _ := by simpa using h
      rw [Legible, hk] at hu
      cases hu
    | group => exact hu.elim
    | call name args =>
      obtain ⟨rfl, -⟩ : operator = name ∧ _ := by simpa using h
      rw [hu.1] at hk
      cases hk
    | node operator' left' right' =>
      obtain ⟨-, hl', hr'⟩ := hu
      have hleft := scanned_append_inj left hl left' hl'
      have hright := scanned_append_inj right hr right' hr'
      simp only [scanned_node, List.cons_append, List.cons.injEq] at h
      obtain ⟨rfl, h⟩ := h
      cases m with
      | rpn =>
        simp only [Mode.join, List.append_assoc] at h
        obtain ⟨rfl, hrest⟩ := hright _ _ h
        obtain ⟨rfl, rfl⟩ := hleft _ _ hrest
        exact ⟨rfl, rfl⟩
      | pn =>
        simp only [Mode.join, List.append_assoc] at h
        obtain ⟨rfl, hrest⟩ := hleft _ _ h
        obtain ⟨rfl, rfl⟩ := hright _ _ hrest
        exact ⟨rfl, rfl⟩

/-- Several listings determine their trees. -/
theorem listings_inj : (ts : List Tree) → LegibleAll m sheet ts → ∀ us : List Tree,
    LegibleAll m sheet us → ts.map (listing m) = us.map (listing m) → ts = us
  | [], _, _, _, h => (List.map_eq_nil_iff.1 h.symm).symm
  | t :: ts, ⟨ht, hts⟩, [], _, h => by simp at h
  | t :: ts, ⟨ht, hts⟩, u :: us, ⟨hu, hus⟩, h => by
    simp only [List.map_cons, List.cons.injEq] at h
    obtain ⟨rfl, -⟩ := scanned_append_inj t ht u hu [] [] (by rw [scanned_inj.2 h.1])
    rw [listings_inj ts hts us hus h.2]

end

/-- **A legible tree is determined by its listing.** -/
theorem Legible.eq_of_listing {t u : Tree} (ht : t.Legible m sheet) (hu : u.Legible m sheet)
    (h : t.listing m = u.listing m) : t = u :=
  (scanned_append_inj t ht u hu [] [] (by rw [scanned_inj.2 h])).1

end Tree

/-! ## A complete listing has a tree -/

namespace Evaluate

variable {m : Mode} {sheet : Sheet}

/-- The trees on a stack, newest first, as a scan leaves their tokens. -/
def row (m : Mode) (trees : List Tree) : List Token := trees.flatMap (Tree.scanned m)

/-- There are trees for the arguments of a token, if it is a call. -/
def ArgumentsLegible (m : Mode) (sheet : Sheet) (t : Token) : Prop :=
  t.kind = .call → ∃ trees, Tree.LegibleAll m sheet trees ∧
    sheet.args? t.handle = some (trees.map (Tree.listing m))

/-- What a token makes of the trees on a stack. -/
theorem exists_row_of_raise? {t : Token} {trees : List Tree} {n : Nat}
    (ht : ArgumentsLegible m sheet t) (htrees : ∀ u ∈ trees, u.Legible m sheet)
    (h : raise? t.kind trees.length = some n) :
    ∃ trees', (∀ u ∈ trees', Tree.Legible m sheet u) ∧ trees'.length = n ∧
      row m trees' = t :: row m trees := by
  have push (u : Tree) (hu : u.Legible m sheet) (hscan : u.scanned m = [t])
      (hn : trees.length + 1 = n) :
      ∃ trees', (∀ u ∈ trees', Tree.Legible m sheet u) ∧ trees'.length = n ∧
        row m trees' = t :: row m trees :=
    ⟨u :: trees, by simpa using ⟨hu, htrees⟩, hn, by simp [row, hscan]⟩
  cases hk : t.kind with rw [hk] at h
  | number | constant =>
    exact push (.value t) (by rw [Tree.Legible, hk]; rfl) (by simp) (Option.some.inj h)
  | call =>
    obtain ⟨args, hargs, hentry⟩ := ht hk
    exact push (.call t args) ⟨hk, hentry, hargs⟩ (by simp) (Option.some.inj h)
  | operator =>
    match trees, htrees, h with
    | newest :: older :: below, htrees, h =>
      simp only [List.forall_mem_cons] at htrees
      obtain ⟨hnewest, holder, hbelow⟩ := htrees
      obtain rfl := Option.some.inj h
      cases m with
      | rpn =>
        refine ⟨.node t older newest :: below, ?_, rfl, by simp [row, Mode.join]⟩
        exact List.forall_mem_cons.2 ⟨⟨hk, holder, hnewest⟩, hbelow⟩
      | pn =>
        refine ⟨.node t newest older :: below, ?_, rfl, by simp [row, Mode.join]⟩
        exact List.forall_mem_cons.2 ⟨⟨hk, hnewest, holder⟩, hbelow⟩
  | openBracket | closeBracket | separator | other => cases h

/-- What tokens make of the trees on a stack. -/
theorem exists_row_of_height? {ts : List Token} {trees : List Tree} {n : Nat}
    (hts : ∀ t ∈ ts, ArgumentsLegible m sheet t) (htrees : ∀ u ∈ trees, u.Legible m sheet)
    (h : height? trees.length ts = some n) :
    ∃ trees', (∀ u ∈ trees', Tree.Legible m sheet u) ∧ trees'.length = n ∧
      row m trees' = ts.reverse ++ row m trees := by
  induction ts generalizing trees with
  | nil => exact ⟨trees, htrees, Option.some.inj h, rfl⟩
  | cons t ts ih =>
    rw [height?, Option.bind_eq_some_iff] at h
    obtain ⟨k, hraise, h⟩ := h
    obtain ⟨between, hbetween, rfl, hrow⟩ :=
      exists_row_of_raise? (hts t List.mem_cons_self) htrees hraise
    obtain ⟨trees', htrees', hlength, hrow'⟩ :=
      ih (fun u hu => hts u (List.mem_cons_of_mem t hu)) hbetween h
    exact ⟨trees', htrees', hlength, by rw [hrow', hrow]; simp⟩

theorem exists_legibleAll {lists : List (List Token)}
    (h : ∀ list ∈ lists, ∃ t : Tree, t.Legible m sheet ∧ t.listing m = list) :
    ∃ trees, Tree.LegibleAll m sheet trees ∧ trees.map (Tree.listing m) = lists := by
  induction lists with
  | nil => exact ⟨[], trivial, rfl⟩
  | cons list rest ih =>
    obtain ⟨t, ht, rfl⟩ := h list List.mem_cons_self
    obtain ⟨ts, hts, rfl⟩ := ih fun list hlist => h list (List.mem_cons_of_mem _ hlist)
    exact ⟨t :: ts, ⟨ht, hts⟩, rfl⟩

/-- **Every complete listing is the listing of a legible tree.** -/
theorem Complete.exists_tree {list : List Token} (h : Complete m sheet list) :
    ∃ t : Tree, t.Legible m sheet ∧ t.listing m = list := by
  induction h with
  | @intro list hheight hcalled _ ih =>
    have hargs : ∀ t ∈ m.scanOrder list, ArgumentsLegible m sheet t := by
      intro t ht hk
      have hmem := (m.scanOrder_perm list).mem_iff.1 ht
      obtain ⟨args, hattached⟩ := Option.isSome_iff_exists.1 (hcalled t hmem hk)
      obtain ⟨trees, htrees, rfl⟩ := exists_legibleAll (ih t hmem hk args hattached)
      exact ⟨trees, htrees, hattached⟩
    have hnone : ∀ u ∈ ([] : List Tree), u.Legible m sheet := by simp
    obtain ⟨trees, htrees, hlength, hrow⟩ := exists_row_of_height? hargs hnone hheight
    obtain ⟨t, rfl⟩ := List.length_eq_one_iff.1 hlength
    refine ⟨t, htrees t List.mem_cons_self, ?_⟩
    rw [← t.inOrder_scanned, ← m.inOrder_reverse_scanOrder list]
    congr 1
    simpa [row] using hrow

/-! ## Evaluating any listing -/

/-- **Evaluating a listing is evaluating the tree that it lists**: it gives a value exactly if there
is a legible tree with this listing and this value, whose calls are nested no deeper than the limit,
and there is at most one legible tree with this listing. -/
theorem Job.run_iff_tree (job : Job) (now : Surroundings) (hdepth : 0 ≤ job.limits.callDepth)
    (list : List Token) :
    (∀ value, (job.run list).eager now = .ok value ↔
        ∃ t : Tree, t.Legible job.mode now.sheet ∧ t.listing job.mode = list ∧
          (t.callDepth : Int) ≤ job.limits.callDepth ∧
          t.eval now.registries job.draws = some value) ∧
      ∀ t u : Tree, t.Legible job.mode now.sheet → u.Legible job.mode now.sheet →
        t.listing job.mode = list → u.listing job.mode = list → t = u := by
  refine ⟨fun value => ?_, fun t u ht hu htl hul => ht.eq_of_listing hu (htl.trans hul.symm)⟩
  rw [Job.run_ok]
  constructor
  · intro h
    obtain ⟨t, ht, rfl⟩ := h.complete.exists_tree
    obtain ⟨heval, hcalls⟩ := (evaluates_listing ht.proper ht.attached).1 h
    exact ⟨t, ht, rfl, by omega, heval⟩
  · rintro ⟨t, ht, rfl, hcalls, heval⟩
    exact (evaluates_listing ht.proper ht.attached).2 ⟨heval, by omega⟩

/-- The listing `max(2, 3) 4 *` has one tree and one value. -/
theorem Job.run_product :
    (Job.run ⟨.rpn, .standard, none, fun _ _ => 0⟩ [⟨.call, "max", 0, 0⟩, ⟨.number, "4", 9, 7⟩,
        ⟨.operator, "*", 8, 6⟩]).eager
      (Engine.standard.surroundings (Sheet.empty.attach 0
        [[⟨.number, "2", 4, 2⟩], [⟨.number, "3", 6, 4⟩]])) = .ok 12 := by
  let max : Tree := .call ⟨.call, "max", 0, 0⟩
    [.value ⟨.number, "2", 4, 2⟩, .value ⟨.number, "3", 6, 4⟩]
  let product : Tree := .node ⟨.operator, "*", 8, 6⟩ max (.value ⟨.number, "4", 9, 7⟩)
  have hlegible : product.Legible .rpn (Sheet.empty.attach 0
      [[⟨.number, "2", 4, 2⟩], [⟨.number, "3", 6, 4⟩]]) :=
    ⟨rfl, ⟨rfl, rfl, rfl, rfl, trivial⟩, rfl⟩
  have heval : product.eval Registries.standard (fun _ _ => 0) = some 12 := by decide +kernel
  exact ((Job.run_iff_tree ⟨.rpn, .standard, none, fun _ _ => 0⟩ _ (by decide) _).1 12).2
    ⟨product, hlegible, rfl, by decide, heval⟩

end Evaluate

end Polish
