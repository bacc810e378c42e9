import Polish.Proofs.Compile.Expression

/-!
# No token is lost

`Item.flatOf` is a listing with the arguments of its calls in line: each call is followed by its
arguments, each of them flattened in the same way.  `Engine.flatten_compile` says that a compilation
neither loses tokens nor makes up any: flattened, its listing has exactly the values, calls and
operators of the tokens, and the values and calls are in the order of the source in both notations.

Operators move to their places over operands, so the listing of a `Yard` keeps the order of
everything else (`Yard.filter_listing`).  `Keeps` is what is said of a flattened listing and the
tokens that it comes of; it can be put together part by part.

## How the proof goes

Two things are asked of the flattened listing: that it is a permutation of the listed tokens, and
that the operands in it are in the order of the source.  Both survive putting parts next to each
other and leaving out what is not listed, which is why they are one structure, `Keeps`, with a lemma
for each way of putting together.  The one place where tokens change their order is a yard;
`filter_listing` says that only operators do, because whatever leaves the stack goes on top of all
operands so far.

For a call the induction needs one level of depth less for its arguments than for the call itself.
`Sheet.Holds` keeps account of that: a phrase has no more entries than there are levels, and a call
has an entry of its own that the phrases inside of it do not need.
-/

set_option autoImplicit false

namespace Polish

namespace Kind

/-- A value or a call stands in a listing where it stands in the source. -/
def isOperand : Kind → Bool
  | number | constant | call => true
  | _ => false

/-- Brackets and separators are in no listing. -/
def isListed : Kind → Bool
  | number | constant | call | operator => true
  | _ => false

end Kind

/-! ## Flattening -/

namespace Item

mutual

/-- An item and, if it is a call, the items inside it. -/
def flat : Item → List Token
  | mk token none => [token]
  | mk token (some args) => if token.kind = .call then token :: flatOfAll args else [token]

/-- The same of all items in several lists. -/
def flatOfAll : List (List Item) → List Token
  | [] => []
  | items :: rest => flatOf items ++ flatOfAll rest

/-- The same of several items. -/
def flatOf : List Item → List Token
  | [] => []
  | item :: rest => item.flat ++ flatOf rest

end

end Item

namespace Sheet

/-- What is inside a token, down to a given depth: the arguments of a call, each of their tokens
with what is inside of it. -/
def inside (s : Sheet) : Nat → Token → List Token
  | 0, _ => []
  | depth + 1, token =>
    if token.kind = .call then
      ((s.args? token.handle).getD []).flatMap fun arg =>
        arg.flatMap fun token => token :: s.inside depth token
    else []

/-- Tokens, each with what is inside of it. -/
def flat (s : Sheet) (depth : Nat) (tokens : List Token) : List Token :=
  tokens.flatMap fun token => token :: s.inside depth token

variable {s : Sheet} {depth : Nat}

theorem inside_of_ne {t : Token} (h : t.kind ≠ .call) : s.inside depth t = [] := by
  cases depth with
  | zero => rfl
  | succ depth => rw [inside, if_neg h]

theorem inside_call {t : Token} {args : List (List Token)} (h : t.kind = .call)
    (hargs : s.args? t.handle = some args) :
    s.inside (depth + 1) t = args.flatMap (s.flat depth) := by
  rw [inside, if_pos h, hargs]
  rfl

theorem length_attachAll (sheet : Sheet) (entries : List (Nat × List (List Token))) :
    (sheet.attachAll entries).entries.length = entries.length + sheet.entries.length := by
  induction entries generalizing sheet with
  | nil => simp [attachAll]
  | cons entry rest ih =>
    rw [attachAll, List.foldl_cons, ← attachAll, ih, attach, List.length_cons, List.length_cons]
    omega

theorem flat_cons (t : Token) (tokens : List Token) :
    s.flat depth (t :: tokens) = t :: (s.inside depth t ++ s.flat depth tokens) := rfl

theorem flat_append (xs ys : List Token) :
    s.flat depth (xs ++ ys) = s.flat depth xs ++ s.flat depth ys := List.flatMap_append

/-- What is no operand has nothing inside, so it can be left out before flattening. -/
theorem filter_flat (tokens : List Token) : (s.flat depth tokens).filter (·.kind.isOperand)
    = (s.flat depth (tokens.filter (·.kind.isOperand))).filter (·.kind.isOperand) := by
  induction tokens with
  | nil => rfl
  | cons t tokens ih =>
    rw [flat_cons, List.filter_cons, List.filter_append, ih]
    cases hk : t.kind.isOperand with
    | true => simp [hk, flat_cons]
    | false =>
      have hcall : t.kind ≠ .call := by
        intro hcall
        rw [hcall] at hk
        cases hk
      simp [hk, inside_of_ne hcall]

/-- A listing with its arguments in place flattens to what it flattens to on the sheet. -/
theorem flatOf_expandTo (tokens : List Token) :
    Item.flatOf (s.expandTo depth tokens) = s.flat depth tokens := by
  induction depth generalizing tokens with
  | zero =>
    induction tokens with
    | nil => rfl
    | cons t ts ih =>
      rw [expandTo] at ih ⊢
      simp only [List.map_cons, Item.flatOf, Item.flat, ih]
      rfl
  | succ depth ih =>
    have hargs (args : List (List Token)) :
        Item.flatOfAll (args.map (s.expandTo depth)) = args.flatMap (s.flat depth) := by
      induction args with
      | nil => rfl
      | cons arg rest ihr => rw [List.map_cons, Item.flatOfAll, ih, ihr, List.flatMap_cons]
    induction tokens with
    | nil => rfl
    | cons t ts iht =>
      rw [expandTo] at iht ⊢
      rw [List.map_cons, Item.flatOf, iht, flat, flat, List.flatMap_cons]
      congr 1
      cases hentry : s.args? t.handle with
      | none => simp [Item.flat, inside, hentry]
      | some args =>
        rw [Option.map_some, Item.flat, hargs]
        split
        · next hk => rw [inside_call hk hentry]
        · next hk => rw [inside_of_ne hk]

end Sheet

/-! ## What a scan keeps -/

namespace Yard

variable {m : Mode} {operators : Table Operator}

theorem filter_operators {ts : List Token} (h : ∀ t ∈ ts, t.kind = .operator) :
    ts.filter (·.kind.isOperand) = [] := by
  refine List.filter_eq_nil_iff.2 fun t ht => ?_
  rw [h t ht]
  exact Bool.false_ne_true

theorem filter_flushed {y : Yard} (hy : y.Proper) :
    y.flushed.filter (·.kind.isOperand) = y.output.filter (·.kind.isOperand) := by
  rw [flushed, List.filter_append, List.filter_reverse, filter_operators hy]
  rfl

/-- A piece goes on top of the operands that are there. -/
theorem filter_add {y : Yard} {q : Piece} (hy : y.Proper) (hq : q.Proper) :
    (y.add m operators q).flushed.filter (·.kind.isOperand)
      = (m.inOrder q.tokens).filter (·.kind.isOperand)
        ++ y.flushed.filter (·.kind.isOperand) := by
  rw [filter_flushed (hy.add hq), filter_flushed hy]
  cases q with
  | operand listing => rw [add, List.filter_append]; rfl
  | operator t =>
    have htop : ∀ u ∈ (y.operators.takeWhile (yields m operators t)).reverse,
        u.kind = .operator :=
      fun u hu => hy u (List.takeWhile_subset _ (List.mem_reverse.1 hu))
    have htoken : ∀ u ∈ m.inOrder (Piece.operator t).tokens, u.kind = .operator := by
      intro u hu
      obtain rfl := List.mem_singleton.1 ((m.inOrder_perm _).mem_iff.1 hu)
      exact hq
    rw [add, List.filter_append, filter_operators htop, filter_operators htoken]

theorem filter_run {y : Yard} {pieces : List Piece} (hy : y.Proper)
    (hpieces : ∀ q ∈ pieces, q.Proper) :
    (y.run m operators pieces).flushed.filter (·.kind.isOperand)
      = (pieces.reverse.flatMap fun q => m.inOrder q.tokens).filter (·.kind.isOperand)
        ++ y.flushed.filter (·.kind.isOperand) := by
  induction pieces generalizing y with
  | nil => rfl
  | cons q pieces ih =>
    have hq := hpieces q List.mem_cons_self
    rw [run, List.foldl_cons, ← run,
      ih (hy.add hq) fun q' hq' => hpieces q' (List.mem_cons_of_mem q hq'), filter_add hy hq]
    simp

/-- **A listing has the operands of its pieces in order.** -/
theorem filter_listing {pieces : List Piece} (hpieces : ∀ q ∈ pieces, q.Proper) :
    (listing m operators pieces).filter (·.kind.isOperand)
      = (pieces.flatMap Piece.tokens).filter (·.kind.isOperand) := by
  have hscan : ∀ q ∈ m.scanOrder pieces, q.Proper :=
    fun q hq => hpieces q ((m.scanOrder_perm pieces).mem_iff.1 hq)
  have hrun := @filter_run m operators empty _ proper_empty hscan
  cases m with
  | rpn =>
    rw [listing, Mode.inOrder, List.filter_reverse, hrun]
    simp [Mode.scanOrder, Mode.inOrder, flushed, empty, List.filter_flatMap, List.reverse_flatMap,
      Function.comp_def]
  | pn =>
    rw [listing, Mode.inOrder, hrun]
    simp [Mode.scanOrder, Mode.inOrder, flushed, empty]

end Yard

/-- The flattened listing has the listed tokens, and their operands in order. -/
structure Keeps (flat tokens : List Token) : Prop where
  perm : flat.Perm (tokens.filter (·.kind.isListed))
  order : flat.filter (·.kind.isOperand) = tokens.filter (·.kind.isOperand)

namespace Keeps

variable {xs ys ts us : List Token} {t : Token}

theorem nil : Keeps [] [] := ⟨.refl _, rfl⟩

theorem append (hx : Keeps xs ts) (hy : Keeps ys us) : Keeps (xs ++ ys) (ts ++ us) where
  perm := by
    rw [List.filter_append]
    exact hx.perm.append hy.perm
  order := by rw [List.filter_append, List.filter_append, hx.order, hy.order]

/-- A token that is listed is kept. -/
theorem cons (h : Keeps xs ts) (hk : t.kind.isListed = true) : Keeps (t :: xs) (t :: ts) where
  perm := by
    rw [List.filter_cons_of_pos (by simpa using hk)]
    exact h.perm.cons t
  order := by rw [List.filter_cons, List.filter_cons, h.order]

/-- A bracket or a separator is left out. -/
theorem skip (h : Keeps xs ts) (hk : t.kind.isListed = false) : Keeps xs (t :: ts) := by
  have hoperand : t.kind.isOperand = false := by
    cases hkind : t.kind <;> simp_all [Kind.isListed, Kind.isOperand]
  refine ⟨?_, ?_⟩
  · rw [List.filter_cons_of_neg (by simpa using hk)]
    exact h.perm
  · rw [List.filter_cons_of_neg (by simpa using hoperand)]
    exact h.order

variable {m : Mode} {operators : Table Operator} {s : Sheet} {depth : Nat}

/-- Flattening goes token by token, so it keeps what a scan keeps. -/
theorem of_listing {pieces : List Piece} (hpieces : ∀ q ∈ pieces, q.Proper)
    (h : Keeps (s.flat depth (pieces.flatMap Piece.tokens)) ts) :
    Keeps (s.flat depth (Yard.listing m operators pieces)) ts where
  perm := ((Yard.listing_perm m operators pieces).flatMap_right _).trans h.perm
  order := by rw [Sheet.filter_flat, Yard.filter_listing hpieces, ← Sheet.filter_flat, h.order]

end Keeps

/-! ## Phrases -/

section

variable {m : Mode} {operators : Table Operator} {limit : Int} {s : Sheet} {depth : Nat}

/-- The entries can be found, and there are no more of them than levels to go down. -/
structure Sheet.Holds (s : Sheet) (depth : Nat) (entries : List (Nat × List (List Token))) :
    Prop where
  found : ∀ entry ∈ entries, s.args? entry.1 = some entry.2
  length : entries.length ≤ depth

theorem Sheet.Holds.of_join {xs ys : List (Nat × List (List Token))}
    (h : s.Holds depth (m.join xs ys)) : s.Holds depth xs ∧ s.Holds depth ys := by
  have hlength := (m.join_perm xs ys).length_eq
  rw [List.length_append] at hlength
  have := h.length
  exact ⟨⟨fun entry he => h.found entry (Mode.mem_join.2 (.inl he)), by omega⟩,
    ⟨fun entry he => h.found entry (Mode.mem_join.2 (.inr he)), by omega⟩⟩

/-- A call has an entry of its own, so one level less is enough for what is inside of it. -/
theorem Sheet.Holds.of_call {xs : List (Nat × List (List Token))} {handle : Nat}
    {args : List (List Token)} (h : s.Holds depth (xs ++ [(handle, args)])) :
    ∃ below, depth = below + 1 ∧ s.Holds below xs ∧ s.args? handle = some args := by
  have hlength := h.length
  rw [List.length_append, List.length_singleton] at hlength
  exact ⟨depth - 1, by omega,
    ⟨fun entry he => h.found entry (List.mem_append_left _ he), by omega⟩,
    h.found (handle, args) (List.mem_append_right _ List.mem_cons_self)⟩

/-- The tokens of the pieces of a phrase. -/
def Phrase.spread (m : Mode) (operators : Table Operator) (p : Phrase) : List Token :=
  (p.pieces m operators).flatMap Piece.tokens

theorem Phrase.keeps_listing {p : Phrase} {ts : List Token}
    (h : Keeps (s.flat depth (p.spread m operators)) ts) :
    Keeps (s.flat depth (p.listing m operators)) ts :=
  .of_listing (p.pieces_proper m operators) h

/-- The flattened listings of phrases, one after the other. -/
def Sheet.flatPhrases (s : Sheet) (m : Mode) (operators : Table Operator) (depth : Nat)
    (phrases : List Phrase) : List Token :=
  (phrases.map (Phrase.listing m operators)).flatMap (s.flat depth)

/-- The empty argument of a call without arguments makes no difference. -/
theorem Sheet.flatPhrases_arguments (ps : Phrases) :
    s.flatPhrases m operators depth ps.arguments
      = s.flatPhrases m operators depth (ps.head :: ps.tail) := by
  by_cases hbare : ps = .last .nil
  · subst hbare
    simp [flatPhrases, Phrases.arguments, Phrases.head, Phrases.tail, flat]
  · rw [Phrases.arguments_of_ne hbare]

theorem Phrase.flat_plain {t : Token} {rest : Phrase} (h : t.kind ≠ .call) :
    s.flat depth ((Phrase.plain t rest).spread m operators)
      = t :: s.flat depth (rest.spread m operators) := by
  rw [spread, pieces, List.flatMap_cons, Piece.tokens_ofToken, List.singleton_append,
    Sheet.flat_cons, Sheet.inside_of_ne h, List.nil_append, ← spread]

theorem Phrase.flat_group {q rest : Phrase} {o c : Token} :
    s.flat depth ((Phrase.bracket none o (.last q) c rest).spread m operators)
      = s.flat depth (q.listing m operators) ++ s.flat depth (rest.spread m operators) := by
  rw [← Sheet.flat_append]
  rfl

theorem Phrase.flat_call {f o c : Token} {inner : Phrases} {rest : Phrase} (hk : f.kind = .call)
    (hargs : s.args? f.handle = some (inner.arguments.map (Phrase.listing m operators))) :
    s.flat (depth + 1) ((Phrase.bracket (some f) o inner c rest).spread m operators)
      = f :: (s.flatPhrases m operators depth (inner.head :: inner.tail)
        ++ s.flat (depth + 1) (rest.spread m operators)) := by
  rw [← Sheet.flatPhrases_arguments, Sheet.flatPhrases, ← Sheet.inside_call hk hargs]
  rfl

mutual

/-- A phrase keeps its tokens, if its arguments stand on the sheet. -/
theorem Phrase.keeps : (p : Phrase) → p.Matched → p.Sound operators limit → (depth : Nat) →
    s.Holds depth (p.entries m operators) → Keeps (s.flat depth (p.spread m operators)) p.tokens
  | .nil, _, _, _, _ => .nil
  | .plain t rest, ⟨_, _, _, hr⟩, ⟨hk, hsr⟩, depth, h => by
    have hrest := rest.keeps hr hsr depth h
    have hkind : t.kind.isListed = true ∧ t.kind ≠ .call := by
      rcases hk with hk | ⟨hk, -⟩
      · cases h : t.kind <;> simp_all [Kind.isValue, Kind.isListed]
      · simp [hk, Kind.isListed]
    rw [Phrase.flat_plain hkind.2]
    exact hrest.cons hkind.1
  | .bracket none o (.last q) c rest, ⟨_, ho, hq, hc, hr⟩, ⟨_, hsq, hsr⟩, depth, h => by
    simp only [Phrase.entries, Phrases.entries, Option.toList_none, List.map_nil,
      List.append_nil] at h
    obtain ⟨hholds, hholds'⟩ := h.of_join
    have hinner := Phrase.keeps_listing (q.keeps hq hsq depth hholds)
    have hrest := (rest.keeps hr hsr depth hholds').skip (t := c) (by rw [hc]; rfl)
    rw [Phrase.flat_group, Phrase.tokens, Option.toList_none, List.nil_append, Phrases.tokens]
    exact (hinner.append hrest).skip (by rw [ho]; rfl)
  | .bracket none _ (.more ..) _ _, _, ⟨⟨_, h, _⟩, _⟩, _, _ => by cases h
  | .bracket (some f) o inner c rest, ⟨hf, ho, hi, hc, hr⟩, ⟨_, hsi, hsr⟩, depth, h => by
    have hk : f.kind = .call := hf f rfl
    obtain ⟨hholds, hholds'⟩ := h.of_join
    -- The call is opened one level down, and what is found there are the tokens of its arguments.
    obtain ⟨below, rfl, hholds, hargs⟩ := hholds.of_call
    have hinner := inner.keeps hi hsi below hholds
    have hrest := (rest.keeps hr hsr (below + 1) hholds').skip (t := c) (by rw [hc]; rfl)
    rw [Phrase.flat_call hk hargs, Phrase.tokens, Option.toList_some, List.singleton_append]
    exact ((hinner.append hrest).skip (by rw [ho]; rfl)).cons (by rw [hk]; rfl)

/-- Phrases keep their tokens. -/
theorem Phrases.keeps : (ps : Phrases) → ps.Matched → ps.Sound operators limit → (depth : Nat) →
    s.Holds depth (ps.entries m operators) →
      Keeps (s.flatPhrases m operators depth (ps.head :: ps.tail)) ps.tokens
  | .last p, hm, hs, depth, h => by
    have hp := Phrase.keeps_listing (p.keeps hm hs depth h)
    rwa [show s.flatPhrases m operators depth ((Phrases.last p).head :: (Phrases.last p).tail)
      = s.flat depth (p.listing m operators) from List.append_nil _]
  | .more p t rest, ⟨hm, hk, hr⟩, ⟨hs, hsr⟩, depth, h => by
    obtain ⟨hholds, hholds'⟩ := h.of_join
    have hp := Phrase.keeps_listing (p.keeps hm hs depth hholds)
    have hrest := (rest.keeps hr hsr depth hholds').skip (t := t) (by rw [hk]; rfl)
    exact hp.append hrest

end

end

/-! ## Compilations -/

namespace Engine

variable {e : Engine} {sheet : Sheet} {tokens : List Token} {m : Mode} {source : Option String}
  {c : Compile.Compiled}

/-- **A compilation neither loses tokens nor makes up any**: flattened, its listing has the values,
calls and operators of the tokens, each as often as it is there, and it has the values and the calls
in the order of the source.  The calls have to be told apart, for arguments are found by handles. -/
theorem flatten_compile (hcalls : ((tokens.filter (·.kind = .call)).map Token.handle).Nodup)
    (hc : e.compile sheet tokens m.name source = .ok c) :
    (Item.flatOf ((sheet.attachAll c.attached).expand c.listing)).Perm
        (tokens.filter (·.kind.isListed)) ∧
      (Item.flatOf ((sheet.attachAll c.attached).expand c.listing)).filter (·.kind.isOperand)
        = tokens.filter (·.kind.isOperand) := by
  obtain ⟨-, p, rfl, hmatched, hsound, rfl⟩ := compile_ok_iff.1 hc
  let entries := p.entries m e.registries.operators
  have hholds : (sheet.attachAll entries).Holds (entries.length + sheet.entries.length + 1)
      entries := ⟨Phrase.args?_attachAll sheet hmatched hsound hcalls, by omega⟩
  have hkeeps := Phrase.keeps_listing (p.keeps hmatched hsound _ hholds)
  rw [Sheet.expand, Sheet.flatOf_expandTo, Sheet.length_attachAll]
  exact ⟨hkeeps.perm, hkeeps.order⟩

/-- In the prefix listing of `max(2,3)*4` the values and the call are in the order of the source. -/
theorem flatten_compile_product :
    ∃ c, standard.compile .empty [⟨.call, "max", 0, 0⟩, ⟨.openBracket, "(", 3, 1⟩,
        ⟨.number, "2", 4, 2⟩, ⟨.separator, ",", 5, 3⟩, ⟨.number, "3", 6, 4⟩,
        ⟨.closeBracket, ")", 7, 5⟩, ⟨.operator, "*", 8, 6⟩, ⟨.number, "4", 9, 7⟩]
        Mode.pn.name none = .ok c ∧
      (Item.flatOf ((Sheet.empty.attachAll c.attached).expand c.listing)).length = 5 ∧
      ((Item.flatOf ((Sheet.empty.attachAll c.attached).expand c.listing)).filter
        (·.kind.isOperand)).map Token.text = ["max", "2", "3", "4"] := by
  obtain ⟨c, hc⟩ : ∃ c, standard.compile .empty [⟨.call, "max", 0, 0⟩, ⟨.openBracket, "(", 3, 1⟩,
      ⟨.number, "2", 4, 2⟩, ⟨.separator, ",", 5, 3⟩, ⟨.number, "3", 6, 4⟩,
      ⟨.closeBracket, ")", 7, 5⟩, ⟨.operator, "*", 8, 6⟩, ⟨.number, "4", 9, 7⟩]
      Mode.pn.name none = .ok c := ⟨_, rfl⟩
  obtain ⟨hperm, horder⟩ := flatten_compile (by decide) hc
  exact ⟨c, hc, by rw [hperm.length_eq]; decide, by rw [horder]; decide⟩

end Engine

end Polish
