import Polish.Proofs.Compile.Flatten
import Polish.Proofs.Grammar.Spelling
import Polish.Proofs.Text.Separated

/-!
# Listings can be told from their texts

A listing is printed as its words with blanks between them, and behind the name of a call come its
arguments in brackets, with commas between them.  No word has any of these characters in it, so the
text can be taken apart again.

* `Sheet.Whole` — the arguments of calls are on the sheet all the way down, and none is empty;
* `Phrase.whole` — it is so for all that a compilation makes;
* `Sheet.Alike` — two tokens are alike, and so are the arguments if they are calls;
* `Sheet.determines_chars`, `Sheet.alike_of_render` — tokens with the same text are alike, and so
  are listings.

## How the proof goes

Two texts are read at once, from the left.  The words of both tokens end where a blank, a comma or a
bracket comes, so equal texts have equal words there and equal rests; whether a bracket follows
tells whether a token is a call; and its arguments are texts of the same sort one level down.  The
tool for this is `Text.Determines`: equal texts with anything behind them, as long as it begins like
layout or is nothing, come of related things and have equal rests.  It holds of lists with
separators between them if it holds of the members.

The induction is on the depth, and it needs to know that the depth suffices on both sides, which is
what `Sheet.Whole` is for.
-/

set_option autoImplicit false

namespace Polish

/-! ## Arguments all the way down -/

/-- So many levels down, all tokens are of some sort and all calls have their arguments, none of
which is empty. -/
def Sheet.Whole (s : Sheet) (P : Token → Prop) : Nat → Token → Prop
  | 0, t => P t ∧ t.kind ≠ .call
  | depth + 1, t => P t ∧ (t.kind = .call → ∃ args, s.args? t.handle = some args ∧
      ∀ arg ∈ args, arg ≠ [] ∧ ∀ u ∈ arg, s.Whole P depth u)

section

variable {m : Mode} {operators : Table Operator} {limit : Int} {s : Sheet} {P : Token → Prop}

theorem Sheet.Whole.of_ne {depth : Nat} {t : Token} (h : P t) (hk : t.kind ≠ .call) :
    s.Whole P depth t := by
  cases depth with
  | zero => exact ⟨h, hk⟩
  | succ depth => exact ⟨h, fun hcall => absurd hcall hk⟩

theorem Sheet.Whole.sort {depth : Nat} {t : Token} (h : s.Whole P depth t) : P t := by
  cases depth with
  | zero => exact h.1
  | succ depth => exact h.1

/-- A listing has the tokens of its pieces. -/
theorem Phrase.mem_listing {p : Phrase} {t : Token} :
    t ∈ p.listing m operators ↔ t ∈ p.spread m operators :=
  (Yard.listing_perm m operators _).mem_iff

mutual

/-- **The pieces of a phrase are whole**, if its entries are on the sheet. -/
theorem Phrase.whole : (p : Phrase) → p.Matched → p.Sound operators limit →
    (∀ t ∈ p.tokens, t.kind.isListed = true → P t) → (depth : Nat) →
    s.Holds depth (p.entries m operators) → ∀ t ∈ p.spread m operators, s.Whole P depth t
  | .nil, _, _, _, _, _, _, ht => by cases ht
  | .plain t rest, ⟨_, _, _, hr⟩, ⟨hk, hsr⟩, hP, depth, h, u, hu => by
    have hlisted : t.kind.isListed = true ∧ t.kind ≠ .call := by
      rcases hk with hk | ⟨hk, -⟩
      · cases h : t.kind <;> simp_all [Kind.isValue, Kind.isListed]
      · simp [hk, Kind.isListed]
    rw [Phrase.tokens, List.forall_mem_cons] at hP
    rw [Phrase.spread, Phrase.pieces, List.flatMap_cons, Piece.tokens_ofToken,
      List.singleton_append, List.mem_cons] at hu
    rcases hu with rfl | hu
    · exact .of_ne (hP.1 hlisted.1) hlisted.2
    · exact rest.whole hr hsr hP.2 depth h u hu
  | .bracket none o (.last q) c rest, ⟨_, _, hq, _, hr⟩, ⟨_, hsq, hsr⟩, hP, depth, h, u, hu => by
    simp only [Phrase.entries, Phrases.entries, Option.toList_none, List.map_nil,
      List.append_nil] at h
    obtain ⟨hholds, hholds'⟩ := h.of_join
    simp only [Phrase.tokens, Phrases.tokens, Option.toList_none, List.nil_append, List.mem_cons,
      List.mem_append] at hP
    have hsplit : u ∈ q.listing m operators ++ rest.spread m operators := hu
    rcases List.mem_append.1 hsplit with hu | hu
    · exact q.whole hq hsq (fun t ht => hP t (by simp [ht])) depth hholds u
        (Phrase.mem_listing.1 hu)
    · exact rest.whole hr hsr (fun t ht => hP t (by simp [ht])) depth hholds' u hu
  | .bracket none _ (.more ..) _ _, _, ⟨⟨_, h, _⟩, _⟩, _, _, _, _, _ => by cases h
  | .bracket (some f) o inner c rest, ⟨hf, _, hi, _, hr⟩, ⟨⟨hne, _⟩, hsi, hsr⟩, hP, depth, h, u,
      hu => by
    have hk : f.kind = .call := hf f rfl
    simp only [Phrase.tokens, Option.toList_some, List.singleton_append, List.mem_cons,
      List.mem_append] at hP
    obtain ⟨hholds, hholds'⟩ := h.of_join
    -- The entry of the call uses up one level, and its arguments are whole below it.
    obtain ⟨below, rfl, hinner, hargs⟩ := hholds.of_call
    have hsplit : u ∈ f :: rest.spread m operators := hu
    rcases List.mem_cons.1 hsplit with rfl | hu
    · refine ⟨hP u (.inl rfl) (by rw [hk]; rfl), fun _ => ⟨_, hargs, fun arg harg => ?_⟩⟩
      obtain ⟨q, hq, rfl⟩ := List.mem_map.1 harg
      obtain ⟨hsound, hwhole⟩ := inner.whole hi hsi (fun t ht => hP t (by simp [ht])) below hinner q
        (Phrases.part_of_mem_arguments hq)
      exact ⟨hsound.listing_ne_nil q (hne q hq), fun t ht => hwhole t (Phrase.mem_listing.1 ht)⟩
    · exact rest.whole hr hsr (fun t ht => hP t (by simp [ht])) (below + 1) hholds' u hu

/-- So are the pieces of each of several phrases. -/
theorem Phrases.whole : (ps : Phrases) → ps.Matched → ps.Sound operators limit →
    (∀ t ∈ ps.tokens, t.kind.isListed = true → P t) → (depth : Nat) →
    s.Holds depth (ps.entries m operators) → ∀ q : Phrase, q.Part ps →
      q.Sound operators limit ∧ ∀ t ∈ q.spread m operators, s.Whole P depth t
  | .last p, hm, hs, hP, depth, h, _, .last => ⟨hs, p.whole hm hs hP depth h⟩
  | .more p t rest, ⟨hm, _, hr⟩, ⟨hs, hsr⟩, hP, depth, h, q, hpart => by
    simp only [Phrases.tokens, List.mem_cons, List.mem_append] at hP
    obtain ⟨hholds, hholds'⟩ := h.of_join
    cases hpart with
    | first => exact ⟨hs, p.whole hm hs (fun t ht => hP t (.inl ht)) depth hholds⟩
    | later _ _ hpart =>
      exact rest.whole hr hsr (fun t ht => hP t (.inr (.inr ht))) depth hholds' q hpart

end

end

/-! ## Texts -/

namespace Item

theorem textOf_eq_map (items : List Item) : textOf items = items.map text := by
  induction items with
  | nil => rfl
  | cons item rest ih => rw [textOf, ih, List.map_cons]

theorem textOfAll_eq_map (args : List (List Item)) : textOfAll args = args.map render := by
  induction args with
  | nil => rfl
  | cons items rest ih => rw [textOfAll, ih, List.map_cons, render]

end Item

namespace Sheet

open Text (Determines)

variable {s s' : Sheet} {depth depth' : Nat} {t u : Token}

/-- A token with its arguments in place, down to a given depth. -/
def itemTo (s : Sheet) : Nat → Token → Item
  | 0, t => ⟨t, none⟩
  | depth + 1, t => ⟨t, (s.args? t.handle).map fun args => args.map (s.expandTo depth)⟩

theorem expandTo_eq_map (s : Sheet) (depth : Nat) (tokens : List Token) :
    s.expandTo depth tokens = tokens.map (s.itemTo depth) := by
  cases depth <;> rfl

/-- What is printed of a token, with its arguments down to a given depth. -/
def chars (s : Sheet) (depth : Nat) (t : Token) : List Char := (s.itemTo depth t).text.toList

/-- What is printed of several tokens. -/
def line (s : Sheet) (depth : Nat) (tokens : List Token) : List Char :=
  [' '].intercalate (tokens.map (s.chars depth))

theorem toList_render (tokens : List Token) :
    (Item.render (s.expandTo depth tokens)).toList = s.line depth tokens := by
  rw [Item.render, String.toList_intercalate, Item.textOf_eq_map, expandTo_eq_map, List.map_map,
    List.map_map]
  rfl

theorem chars_of_ne (h : t.kind ≠ .call) : s.chars depth t = (Text.strip t.text).toList := by
  cases depth with
  | zero => rfl
  | succ depth =>
    rw [chars, itemTo]
    cases s.args? t.handle with
    | none => rfl
    | some args => rw [Option.map_some, Item.text, if_neg h]

/-- Behind the name of a call come its arguments, in brackets and with commas between them. -/
theorem chars_call {args : List (List Token)} (h : t.kind = .call)
    (hargs : s.args? t.handle = some args) : s.chars (depth + 1) t
      = (Text.strip t.text).toList
        ++ '(' :: ([',', ' '].intercalate (args.map (s.line depth)) ++ [')']) := by
  have hlines : args.map (String.toList ∘ Item.render ∘ s.expandTo depth)
      = args.map (s.line depth) :=
    List.map_congr_left fun arg _ => toList_render arg
  rw [chars, itemTo, hargs, Option.map_some, Item.text, if_pos h, Item.textOfAll_eq_map]
  simp only [String.toList_append, String.toList_intercalate, List.map_map, hlines,
    List.append_assoc]
  rfl

/-! ## Tokens with the same text -/

/-- Two tokens, each on its own sheet, are of the same kind and have the same text, and if they are
calls their arguments are alike. -/
inductive Alike (s s' : Sheet) : Token → Token → Prop
  | plain {t u : Token} (hkind : t.kind = u.kind) (hcall : t.kind ≠ .call)
      (htext : Text.strip t.text = Text.strip u.text) : Alike s s' t u
  | call {t u : Token} {args args' : List (List Token)} (ht : t.kind = .call) (hu : u.kind = .call)
      (htext : Text.strip t.text = Text.strip u.text) (hargs : s.args? t.handle = some args)
      (hargs' : s'.args? u.handle = some args')
      (halike : List.Forall₂ (List.Forall₂ (Alike s s')) args args') : Alike s s' t u

/-- What is printed behind the word of a token: nothing, or the arguments of a call. -/
inductive Behind (s : Sheet) : Nat → Token → List Char → Prop
  | word {depth : Nat} {t : Token} (hk : t.kind ≠ .call) : s.Behind depth t []
  | arguments {depth : Nat} {t : Token} {args : List (List Token)} (hk : t.kind = .call)
      (hargs : s.args? t.handle = some args)
      (hwhole : ∀ arg ∈ args, arg ≠ [] ∧ ∀ u ∈ arg, s.Whole Token.Spelled depth u) :
      s.Behind (depth + 1) t ('(' :: ([',', ' '].intercalate (args.map (s.line depth)) ++ [')']))

theorem Whole.exists_behind (h : s.Whole Token.Spelled depth t) :
    ∃ behind, s.chars depth t = t.text.toList ++ behind ∧ s.Behind depth t behind := by
  by_cases hk : t.kind = .call
  · cases depth with
    | zero => exact absurd hk h.2
    | succ depth =>
      obtain ⟨args, hargs, hwhole⟩ := h.2 hk
      exact ⟨_, by rw [chars_call hk hargs, h.1.strip_eq], .arguments hk hargs hwhole⟩
  · exact ⟨[], by rw [chars_of_ne hk, h.sort.strip_eq, List.append_nil], .word hk⟩

/-- A word ends where the layout begins. -/
theorem Behind.head?_append {behind x : List Char} (h : s.Behind depth t behind)
    (hx : ∀ c ∈ x.head?, c ∈ [' ', ',', ')']) :
    ∀ c ∈ (behind ++ x).head?, c ∈ Token.Spelled.layout := by
  have hlayout : ∀ c ∈ [' ', ',', ')'], c ∈ Token.Spelled.layout := by simp
  cases h with
  | word hk => exact fun c hc => hlayout c (hx c hc)
  | arguments hk hargs hwhole =>
    rintro _ ⟨⟩
    decide

/-- What is printed begins with a character of a word. -/
theorem exists_cons_chars {stops : List Char} (hstops : ∀ c ∈ stops, c ∈ Token.Spelled.layout)
    (h : s.Whole Token.Spelled depth t) : ∃ c rest, s.chars depth t = c :: rest ∧ c ∉ stops := by
  obtain ⟨behind, hchars, -⟩ := h.exists_behind
  obtain ⟨c, rest, hcons⟩ := h.sort.exists_cons
  rw [hchars, hcons]
  exact ⟨c, _, rfl, fun hc => h.sort.plain c (hcons ▸ List.mem_cons_self) (hstops c hc)⟩

theorem exists_cons_line {stops : List Char} (hstops : ∀ c ∈ stops, c ∈ Token.Spelled.layout)
    {tokens : List Token} (hne : tokens ≠ []) (h : ∀ t ∈ tokens, s.Whole Token.Spelled depth t) :
    ∃ c rest, s.line depth tokens = c :: rest ∧ c ∉ stops := by
  obtain ⟨t, others, rfl⟩ := List.exists_cons_of_ne_nil hne
  obtain ⟨c, rest, hcons, hplain⟩ := exists_cons_chars hstops (h t List.mem_cons_self)
  rw [line, List.map_cons, Text.intercalate_cons, hcons]
  exact ⟨c, _, rfl, hplain⟩

/-- Listings with the same text are alike if their tokens with the same text are. -/
theorem determines_line {ts us : List Token} (hts : ∀ t ∈ ts, s.Whole Token.Spelled depth t)
    (hus : ∀ u ∈ us, s'.Whole Token.Spelled depth' u)
    (h : ∀ t ∈ ts, ∀ u ∈ us,
      Determines [' ', ',', ')'] (s.chars depth t) (s'.chars depth' u) (s.Alike s' t u)) :
    Determines [',', ')'] (s.line depth ts) (s'.line depth' us)
      (List.Forall₂ (s.Alike s') ts us) := by
  have hlayout : ∀ c ∈ [',', ')'], c ∈ Token.Spelled.layout := by simp
  exact Text.determines_intercalate (by simp) (by simp) h
    (fun t ht => exists_cons_chars hlayout (hts t ht))
    fun u hu => exists_cons_chars hlayout (hus u hu)

/-- Arguments of calls with the same text are alike if their tokens with the same text are. -/
theorem determines_arguments {args args' : List (List Token)}
    (hargs : ∀ arg ∈ args, arg ≠ [] ∧ ∀ t ∈ arg, s.Whole Token.Spelled depth t)
    (hargs' : ∀ arg ∈ args', arg ≠ [] ∧ ∀ u ∈ arg, s'.Whole Token.Spelled depth' u)
    (h : ∀ t u, s.Whole Token.Spelled depth t → s'.Whole Token.Spelled depth' u →
      Determines [' ', ',', ')'] (s.chars depth t) (s'.chars depth' u) (s.Alike s' t u)) :
    Determines [')'] ([',', ' '].intercalate (args.map (s.line depth)))
      ([',', ' '].intercalate (args'.map (s'.line depth')))
      (List.Forall₂ (List.Forall₂ (s.Alike s')) args args') := by
  have hlayout : ∀ c ∈ [')'], c ∈ Token.Spelled.layout := by simp
  have hlines : ∀ arg ∈ args, ∀ arg' ∈ args', Determines [',', ')'] (s.line depth arg)
      (s'.line depth' arg') (List.Forall₂ (s.Alike s') arg arg') := fun arg harg arg' harg' =>
    determines_line (hargs arg harg).2 (hargs' arg' harg').2 fun t ht u hu =>
      h t u ((hargs arg harg).2 t ht) ((hargs' arg' harg').2 u hu)
  exact Text.determines_intercalate (by simp) (by simp) hlines
    (fun arg harg => exists_cons_line hlayout (hargs arg harg).1 (hargs arg harg).2)
    fun arg' harg' => exists_cons_line hlayout (hargs' arg' harg').1 (hargs' arg' harg').2

/-- **Tokens with the same text are alike.**  The induction is on the depth: a word ends where the
layout begins, a bracket behind it says that it is the name of a call, and what is in the brackets
are arguments one level down. -/
theorem determines_chars (ht : s.Whole Token.Spelled depth t)
    (hu : s'.Whole Token.Spelled depth' u) :
    Determines [' ', ',', ')'] (s.chars depth t) (s'.chars depth' u) (s.Alike s' t u) := by
  induction depth using Nat.strongRecOn generalizing depth' t u with
  | ind depth ih =>
    obtain ⟨behind, hchars, hbehind⟩ := ht.exists_behind
    obtain ⟨behind', hchars', hbehind'⟩ := hu.exists_behind
    intro x y hx hy heq
    rw [hchars, hchars', List.append_assoc, List.append_assoc] at heq
    obtain ⟨hword, hrest⟩ := Text.determines_of_plain ht.sort.plain hu.sort.plain _ _
      (hbehind.head?_append hx) (hbehind'.head?_append hy) heq
    have htext : t.text = u.text := String.toList_inj.1 hword
    have hstrip : Text.strip t.text = Text.strip u.text := congrArg Text.strip htext
    -- The words are the same.  What comes behind tells a call from a name: a bracket or a stop.
    cases hbehind with
    | word hk =>
      cases hbehind' with
      | word hk' =>
        exact ⟨.plain (ht.sort.kind_eq hu.sort htext (by simp [hk, hk'])) hk hstrip, hrest⟩
      | arguments hk' hargs' hwhole' =>
        rw [List.nil_append] at hrest
        exact absurd (hx '(' (hrest ▸ rfl)) (by decide)
    | arguments hk hargs hwhole =>
      cases hbehind' with
      | word hk' =>
        rw [List.nil_append] at hrest
        exact absurd (hy '(' (hrest ▸ rfl)) (by decide)
      | arguments hk' hargs' hwhole' =>
        simp only [List.cons_append, List.append_assoc, List.nil_append, List.cons.injEq,
          true_and] at hrest
        have hclose (z : List Char) : ∀ c ∈ (')' :: z).head?, c ∈ [')'] := by
          rintro _ ⟨⟩
          decide
        obtain ⟨halike, hend⟩ := determines_arguments hwhole hwhole'
          (fun t u ht hu => ih _ (Nat.lt_succ_self _) ht hu) _ _ (hclose x) (hclose y) hrest
        exact ⟨.call hk hk' hstrip hargs hargs' halike, (List.cons.inj hend).2⟩

/-- **Listings with the same text are alike.** -/
theorem alike_of_render {ts us : List Token} (hts : ∀ t ∈ ts, s.Whole Token.Spelled depth t)
    (hus : ∀ u ∈ us, s'.Whole Token.Spelled depth' u)
    (h : Item.render (s.expandTo depth ts) = Item.render (s'.expandTo depth' us)) :
    List.Forall₂ (s.Alike s') ts us := by
  have hlines : s.line depth ts ++ [] = s'.line depth' us ++ [] := by
    rw [← toList_render, ← toList_render, h]
  exact (determines_line hts hus (fun t ht u hu => determines_chars (hts t ht) (hus u hu))
    [] [] nofun nofun hlines).1

end Sheet

/-- **Compilations go down no further than the listing is printed**, and leave no argument out. -/
theorem Engine.whole_compile {e : Engine} {sheet : Sheet} {tokens : List Token} {m : Mode}
    {source : Option String} {c : Compile.Compiled} {P : Token → Prop}
    (hP : ∀ t ∈ tokens, t.kind.isListed = true → P t)
    (hcalls : ((tokens.filter (·.kind = .call)).map Token.handle).Nodup)
    (hc : e.compile sheet tokens m.name source = .ok c) : ∀ t ∈ c.listing,
      (sheet.attachAll c.attached).Whole P ((sheet.attachAll c.attached).entries.length + 1) t := by
  obtain ⟨-, p, rfl, hmatched, hsound, rfl⟩ := compile_ok_iff.1 hc
  let entries := p.entries m e.registries.operators
  have hholds : (sheet.attachAll entries).Holds ((sheet.attachAll entries).entries.length + 1)
      entries := by
    refine ⟨Phrase.args?_attachAll sheet hmatched hsound hcalls, ?_⟩
    rw [Sheet.length_attachAll]
    omega
  exact fun t ht => p.whole hmatched hsound hP _ hholds t (Phrase.mem_listing.1 ht)

end Polish
