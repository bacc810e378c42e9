import Polish.Proofs.Tree.Precedence

/-!
# The listing of an expression

A scan never sees a tree, but it works as if it did: with an operator it takes the operators of one
operand off its stack, and it does not take the operator itself off again before the other operand
is out.  That is `Yard.Settles`, and it holds for every tree that is grouped as the scan decides.

* `Tree.yard_listing` — the scan of a grouped tree puts out the listing of the tree;
* `Expression.listing_toPhrase` — so an expression becomes the listing of its tree;
* `Expression.entries_perm` — and the arguments attached on the way are those of the tree's calls.

Both are about every table of operators; only the tree depends on what the scan decides.

## How the proof goes

The induction is on the tree, and a subtree is scanned on top of the operators that are waiting for
it.  What it needs is that they are left alone while it is scanned, and what it gives is that no
more than its own operators are waiting when it is through (`Yard.Settles`).  A node is its first
operand, its operator and its second one, in the order of the scan: the operator takes off what the
first one has left, and the second one leaves the operator alone.  Both conditions are those of a
grouped tree.
-/

set_option autoImplicit false

namespace Polish

namespace Tree

/-- The operands and operators of a tree, with the listings of the operands. -/
def pieces (m : Mode) : Tree → List Piece
  | node operator left right => left.pieces m ++ .operator operator :: right.pieces m
  | t => [.operand (t.listing m)]

theorem pieces_prepend {before : Token → Token → Bool} (m : Mode) (operand : Tree)
    (operator : Token) (t : Tree) :
    (prepend before operand operator t).pieces m
      = operand.pieces m ++ .operator operator :: t.pieces m := by
  induction t with
  | value | group | call => rfl
  | node root left right ihl ihr =>
    rw [prepend]
    split
    · rw [pieces, ihl]
      simp [pieces]
    · rfl

theorem calls_prepend {before : Token → Token → Bool} (operand : Tree) (operator : Token)
    (t : Tree) :
    (prepend before operand operator t).calls = operand.calls ++ t.calls := by
  induction t with
  | value | group | call => simp [prepend, calls]
  | node root left right ihl ihr =>
    rw [prepend]
    split
    · rw [calls, ihl]
      simp [calls]
    · rw [calls]

end Tree

/-! ## Trees in the yard -/

namespace Yard

variable {m : Mode} {operators : Table Operator}

/-- Scanned on top of anything that their operators leave alone, pieces come to a listing: part of
it is out, and what is on the stack are the operators that complete it. -/
def Settles (m : Mode) (operators : Table Operator) (pieces : List Piece) (tokens listing :
    List Token) : Prop :=
  ∀ y : Yard, (∀ top ∈ y.operators.head?, ∀ o ∈ tokens, yields m operators o top = false) →
    ∃ out stack, y.run m operators pieces = ⟨out ++ y.output, stack ++ y.operators⟩ ∧
      stack.reverse ++ out = listing ∧ stack ⊆ tokens

theorem run_append (y : Yard) (xs ys : List Piece) :
    y.run m operators (xs ++ ys) = (y.run m operators xs).run m operators ys :=
  List.foldl_append

theorem settles_operand (listing : List Token) :
    Settles m operators [.operand listing] [] (m.inOrder listing) :=
  fun _ _ => ⟨m.inOrder listing, [], rfl, rfl, List.nil_subset _⟩

/-- What is scanned first has its operators taken off by the operator after it, and what is scanned
then leaves that operator alone. -/
theorem Settles.node {first second : List Piece} {tokens tokens' listing listing' : List Token}
    {o : Token} (hfirst : Settles m operators first tokens listing)
    (hsecond : Settles m operators second tokens' listing')
    (htakes : ∀ t ∈ tokens, yields m operators o t = true)
    (hkeeps : ∀ t ∈ tokens', yields m operators t o = false) :
    Settles m operators (first ++ .operator o :: second) (tokens ++ o :: tokens')
      (o :: (listing' ++ listing)) := by
  intro y hy
  obtain ⟨out, stack, hrun, hlisting, hsub⟩ :=
    hfirst y fun top htop t ht => hy top htop t (List.mem_append_left _ ht)
  have htake : ∀ t ∈ stack, yields m operators o t = true := fun t ht => htakes t (hsub ht)
  -- The operator takes off what the first operand has left on the stack, and no more.
  have hrest : y.operators.takeWhile (yields m operators o) = [] ∧
      y.operators.dropWhile (yields m operators o) = y.operators := by
    cases hops : y.operators with
    | nil => exact ⟨rfl, rfl⟩
    | cons top below =>
      have htop : yields m operators o top = false := hy top (by simp [hops]) o (by simp)
      simp [htop]
  have hadd : (y.run m operators first).add m operators (.operator o)
      = ⟨listing ++ y.output, o :: y.operators⟩ := by
    rw [hrun, add, List.takeWhile_append_of_pos htake, List.dropWhile_append_of_pos htake, hrest.1,
      hrest.2, List.append_nil, ← List.append_assoc, hlisting]
  obtain ⟨out', stack', hrun', hlisting', hsub'⟩ := hsecond ⟨listing ++ y.output, o :: y.operators⟩
    (by simpa using hkeeps)
  refine ⟨out' ++ listing, stack' ++ [o], ?_, ?_, ?_⟩
  · rw [run_append, show ∀ z : Yard, z.run m operators (.operator o :: second)
      = (z.add m operators (.operator o)).run m operators second from fun _ => rfl, hadd, hrun']
    simp
  · rw [← hlisting']
    simp
  · intro t ht
    rcases List.mem_append.1 ht with ht | ht
    · exact List.mem_append_right _ (List.mem_cons_of_mem o (hsub' ht))
    · rw [List.mem_singleton.1 ht]
      exact List.mem_append_right _ List.mem_cons_self

end Yard

namespace Tree

variable {m : Mode} {operators : Table Operator}

/-- All operators outside of brackets are registered operators. -/
def Registered (operators : Table Operator) (t : Tree) : Prop :=
  ∀ o ∈ t.operators, o.kind = .operator ∧ operators.contains o.text = true

theorem settles {t : Tree} (hreg : t.Registered operators)
    (hg : t.Grouped (m.leftFirst operators)) :
    Yard.Settles m operators (m.scanOrder (t.pieces m)) (m.scanOrder t.operators)
      (m.inOrder (t.listing m)) := by
  have leaf (listing : List Token) : Yard.Settles m operators (m.scanOrder [.operand listing])
      (m.scanOrder []) (m.inOrder listing) := by
    cases m <;> exact Yard.settles_operand listing
  induction t with
  | value | group | call => exact leaf _
  | node root left right ihl ihr =>
    obtain ⟨hl, hr, hgl, hgr⟩ := hg
    obtain ⟨hkind, hroot⟩ := hreg root (by simp [Tree.operators])
    have hregl : left.Registered operators := fun o ho => hreg o (by simp [Tree.operators, ho])
    have hregr : right.Registered operators := fun o ho => hreg o (by simp [Tree.operators, ho])
    have hsl := ihl hregl hgl
    have hsr := ihr hregr hgr
    -- The scan comes to the left operand first, or to the right one.
    cases m with
    | rpn =>
      have hnode := hsl.node hsr (o := root)
        (fun p hp => by
          obtain ⟨hkp, hp'⟩ := hregl p hp
          rw [Yard.yields_rpn hkp hp' hroot]
          exact hl p hp)
        (fun q hq => by
          obtain ⟨-, hq'⟩ := hregr q hq
          rw [Yard.yields_rpn hkind hroot hq']
          exact hr q hq)
      simpa [pieces, listing, Tree.operators, Mode.scanOrder, Mode.inOrder] using hnode
    | pn =>
      have hnode := hsr.node hsl (o := root)
        (fun q hq => by
          have hq := List.mem_reverse.1 hq
          obtain ⟨hkq, hq'⟩ := hregr q hq
          rw [Yard.yields_pn hkq hroot hq', hr q hq]
          rfl)
        (fun p hp => by
          have hp := List.mem_reverse.1 hp
          obtain ⟨-, hp'⟩ := hregl p hp
          rw [Yard.yields_pn hkind hp' hroot, hl p hp]
          rfl)
      simpa [pieces, listing, Tree.operators, Mode.scanOrder, Mode.inOrder] using hnode

/-- **The scan of a tree puts out its listing**, if the tree is grouped as the scan decides. -/
theorem yard_listing {t : Tree} (hreg : t.Registered operators)
    (hg : t.Grouped (m.leftFirst operators)) :
    Yard.listing m operators (t.pieces m) = t.listing m := by
  obtain ⟨out, stack, hrun, hlisting, -⟩ := settles hreg hg .empty (by simp [Yard.empty])
  rw [Yard.listing, hrun, Yard.flushed]
  simp only [Yard.empty, List.append_nil]
  rw [hlisting, Mode.inOrder_inOrder]

end Tree

/-! ## Expressions in the yard -/

variable {operators : Table Operator} {limit : Int}

theorem Expression.registered_tree (before : Token → Token → Bool) {x : Expression}
    (hp : x.Proper) (hv : x.Valid operators limit) : (x.tree before).Registered operators := by
  cases x with
  | single t => simp [Expression.tree, Tree.Registered, t.operators_tree]
  | chain t o rest =>
    obtain ⟨-, ho, hr⟩ := hp
    obtain ⟨-, hvo, hvr⟩ := hv
    rw [Expression.tree, Tree.Registered, Tree.operators_prepend, t.operators_tree]
    intro p hp
    rcases List.mem_cons.1 hp with rfl | hp
    · exact ⟨ho, hvo⟩
    · exact rest.registered_tree before hr hvr p hp

theorem Expression.grouped_leftFirst (m : Mode) (operators : Table Operator) (x : Expression) :
    (x.tree (m.leftFirst operators)).Grouped (m.leftFirst operators) :=
  x.grouped_tree (m.leftFirst operators) (fun _ _ _ => Mode.leftFirst_trans)
    fun _ _ _ => Mode.leftFirst_negTrans

/-- Under a uniform table the tree of an expression is grouped as the table says. -/
theorem Expression.grouped_table (h : operators.Uniform) (x : Expression) :
    (x.tree operators.leftFirst).Grouped operators.leftFirst := by
  rw [← Mode.leftFirst_eq h .rpn]
  exact x.grouped_leftFirst .rpn operators

/-- An expression in brackets is scanned as its tree would be. -/
theorem Expression.yard_listing {m : Mode} {x : Expression} (hp : x.Proper)
    (hv : x.Valid operators limit) :
    Yard.listing m operators ((x.tree (m.leftFirst operators)).pieces m)
      = (x.tree (m.leftFirst operators)).listing m :=
  Tree.yard_listing (Expression.registered_tree _ hp hv) (x.grouped_leftFirst m operators)

mutual

theorem Term.pieces_then {m : Mode} (rest : Phrase) :
    (t : Term) → t.Proper → t.Valid operators limit → (t.then rest).pieces m operators
      = (t.tree (m.leftFirst operators)).pieces m ++ rest.pieces m operators
  | .value token, hp, _ => by
    have hk : token.kind ≠ .operator := by
      intro hk
      rw [Term.Proper, hk] at hp
      cases hp
    simp [Term.then, Phrase.pieces, Piece.ofToken, hk, Term.tree, Tree.pieces, Tree.listing]
  | .group _ inner _, ⟨_, hi, _⟩, hv => by
    have ih := inner.pieces_toPhrase hi hv (m := m)
    simp [Term.then, Phrase.pieces, Phrases.headPieces, ih, Term.tree, Tree.pieces, Tree.listing,
      Expression.yard_listing hi hv]
  | .bare .., _, _ => by simp [Term.then, Phrase.pieces, Term.tree, Tree.pieces, Tree.listing]
  | .call .., _, _ => by simp [Term.then, Phrase.pieces, Term.tree, Tree.pieces, Tree.listing]

theorem Expression.pieces_toPhrase {m : Mode} :
    (x : Expression) → x.Proper → x.Valid operators limit →
      x.toPhrase.pieces m operators = (x.tree (m.leftFirst operators)).pieces m
  | .single t, hp, hv => by
    rw [Expression.toPhrase, t.pieces_then .nil hp hv, Phrase.pieces, List.append_nil]
    rfl
  | .chain t o rest, ⟨ht, ho, hr⟩, ⟨hvt, _, hvr⟩ => by
    rw [Expression.toPhrase, t.pieces_then _ ht hvt, Phrase.pieces, rest.pieces_toPhrase hr hvr,
      Expression.tree, Tree.pieces_prepend, Piece.ofToken, if_pos ho]

end

/-- **An expression becomes the listing of its tree**, as the scan would have the tree. -/
theorem Expression.listing_toPhrase {m : Mode} {x : Expression} (hp : x.Proper)
    (hv : x.Valid operators limit) :
    x.toPhrase.listing m operators = (x.tree (m.leftFirst operators)).listing m := by
  rw [Phrase.listing, x.pieces_toPhrase hp hv, Expression.yard_listing hp hv]

/-! ## The arguments of its calls -/

theorem Arguments.map_listing {m : Mode} {as : Arguments} (hp : as.Proper)
    (hv : as.Valid operators limit) : as.toPhrases.arguments.map (Phrase.listing m operators)
      = (as.trees (m.leftFirst operators)).map (Tree.listing m) := by
  cases as with
  | last x => simp [Arguments.trees, Expression.listing_toPhrase (x := x) hp hv]
  | more x s rest =>
    obtain ⟨hx, -, hr⟩ := hp
    obtain ⟨hvx, hvr⟩ := hv
    simp [Arguments.trees, Expression.listing_toPhrase hx hvx, rest.map_listing hr hvr]

mutual

theorem Term.entries_perm {m : Mode} (rest : Phrase) :
    (t : Term) → t.Proper → t.Valid operators limit →
      ((t.then rest).entries m operators).Perm
        ((t.tree (m.leftFirst operators)).calls.map (Tree.entry m) ++ rest.entries m operators)
  | .value _, _, _ => by simp [Term.then, Phrase.entries, Term.tree, Tree.calls]
  | .group _ inner _, ⟨_, hi, _⟩, hv => by
    refine (m.join_perm _ _).trans (List.Perm.append_right _ ?_)
    simpa [Phrases.entries, Term.tree, Tree.calls] using inner.entries_perm hi hv
  | .bare name _ _, _, _ => by
    refine (m.join_perm _ _).trans (List.Perm.append_right _ ?_)
    simp [Phrases.entries, Phrase.entries, Phrases.arguments, Term.tree, Tree.calls, Tree.callsOf,
      Tree.entry]
  | .call name _ args _, ⟨_, _, ha, _⟩, ⟨_, hv⟩ => by
    refine (m.join_perm _ _).trans (List.Perm.append_right _ ?_)
    have ih := args.entries_perm ha hv (m := m)
    have hargs := Arguments.map_listing ha hv (m := m)
    simp only [Term.tree, Tree.calls, List.map_cons, Tree.entry, Option.toList_some, hargs,
      List.map_nil]
    exact (List.perm_append_comm).trans (List.Perm.cons _ ih)

theorem Expression.entries_perm {m : Mode} :
    (x : Expression) → x.Proper → x.Valid operators limit →
      (x.toPhrase.entries m operators).Perm
        ((x.tree (m.leftFirst operators)).calls.map (Tree.entry m))
  | .single t, hp, hv => by
    simpa [Expression.toPhrase, Phrase.entries, Expression.tree] using t.entries_perm .nil hp hv
  | .chain t o rest, ⟨ht, _, hr⟩, ⟨hvt, _, hvr⟩ => by
    rw [Expression.tree, Tree.calls_prepend, List.map_append]
    exact (t.entries_perm _ ht hvt).trans (List.Perm.append_left _ (rest.entries_perm hr hvr))

theorem Arguments.entries_perm {m : Mode} :
    (as : Arguments) → as.Proper → as.Valid operators limit →
      (as.toPhrases.entries m operators).Perm
        ((Tree.callsOf (as.trees (m.leftFirst operators))).map (Tree.entry m))
  | .last x, hp, hv => by
    simpa [Arguments.toPhrases, Phrases.entries, Arguments.trees, Tree.callsOf]
      using x.entries_perm hp hv
  | .more x _ rest, ⟨hx, _, hr⟩, ⟨hvx, hvr⟩ => by
    rw [Arguments.trees, Tree.callsOf, List.map_append]
    exact (m.join_perm _ _).trans ((x.entries_perm hx hvx).append (rest.entries_perm hr hvr))

end

end Polish
