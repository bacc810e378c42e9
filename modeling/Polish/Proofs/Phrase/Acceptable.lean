import Polish.Proofs.Phrase.Basic

/-!
# What the compiler accepts

`Acceptable` lists what makes a token list fit for compiling, each condition in terms of the list
alone: which tokens there are, what stands next to what, and what is between the brackets of a
call.  `Phrase.Sound` says the same of a shape, from the outside in, and is what the two scans are
compared with.

`acceptable_iff` — the two agree: a token list is acceptable exactly if it is new and is the
writing of a sound phrase.

The conditions of `Acceptable` speak of every place of the list.  From conditions to shape, each of
them is used at the place where the shape has a token; from shape to conditions, `Everywhere` walks
over the places and `FitsAt` collects what has to be said at each of them.

## How the proof goes

From conditions to shape there is a lemma for each kind of bracket.  If a bracket of no call had
several phrases inside, the separator between them would have a bracket of a call around it, with
only balanced tokens in between, and that could be no other than this one
(`Balanced.opener_unique`).  It follows by the same argument that no separator stands outside of all
brackets.

From shape to conditions the hard one is about separators, which asks for the name and the bracket
that stand far before it.  Therefore `Phrases.Sound.fits` carries along what has been passed since
the bracket.
-/

set_option autoImplicit false

namespace Polish

open Compile (isKind)

/-! ## Conditions on a token list -/

/-- `inner` is what stands between the brackets of some call in a token list. -/
def IsCallBody (tokens inner : List Token) : Prop :=
  ∃ before name opening closing after,
    tokens = before ++ name :: opening :: (inner ++ closing :: after) ∧ name.kind = .call ∧
      opening.kind = .openBracket ∧ closing.kind = .closeBracket ∧ Balanced inner

/-- What makes a token list fit for compiling. -/
structure Acceptable (now : Surroundings) (limit : Int) (tokens : List Token) : Prop where
  /-- No call has arguments attached already. -/
  fresh : ∀ t ∈ tokens, t.kind = .call → now.sheet.args? t.handle = none
  /-- Every token is of one of the seven kinds, and every operator is registered. -/
  known : ∀ t ∈ tokens, (∀ name, t.kind ≠ .other name) ∧
    (t.kind = .operator → now.registries.operators.contains t.text = true)
  /-- The brackets match. -/
  balanced : Balanced tokens
  /-- The name of a call has a bracket directly after it. -/
  opened : ∀ before t after, tokens = before ++ t :: after → t.kind = .call →
    isKind .openBracket after.head? = true
  /-- The innermost bracket around a separator was opened directly after the name of a call. -/
  separated : ∀ before t after, tokens = before ++ t :: after → t.kind = .separator →
    ∃ outer name opening inner, before = outer ++ name :: opening :: inner ∧
      name.kind = .call ∧ opening.kind = .openBracket ∧ Balanced inner
  /-- A bracket with nothing inside belongs to a call. -/
  filled : ∀ before o c after, tokens = before ++ o :: c :: after → o.kind = .openBracket →
    c.kind = .closeBracket → isKind .call before.getLast? = true
  /-- A call whose arguments are separated has no empty one among them. -/
  nonempty : ∀ inner, IsCallBody tokens inner → 2 ≤ (arguments inner).length →
    ∀ a ∈ arguments inner, a ≠ []
  /-- No call has too many arguments. -/
  counted : ∀ inner, IsCallBody tokens inner → ((arguments inner).length : Int) ≤ limit

/-! ## Sound shapes -/

/-- Whether so many arguments are within a limit; none at all are never too many. -/
def Admits (limit : Int) (count : Nat) : Prop := count = 0 ∨ (count : Int) ≤ limit

mutual

/-- Values, registered operators, brackets with something inside, and calls whose arguments are
not empty and not too many. -/
def Phrase.Sound (operators : Table Operator) (limit : Int) : Phrase → Prop
  | .nil => True
  | .plain token rest =>
    (token.kind.isValue = true ∨
      token.kind = .operator ∧ operators.contains token.text = true) ∧
      rest.Sound operators limit
  | .bracket none _ inner _ rest =>
    (∃ p, inner = .last p ∧ p ≠ .nil) ∧ inner.Sound operators limit ∧ rest.Sound operators limit
  | .bracket (some _) _ inner _ rest =>
    ((∀ p ∈ inner.arguments, p ≠ .nil) ∧ Admits limit inner.arguments.length) ∧
      inner.Sound operators limit ∧ rest.Sound operators limit

/-- The same of each of several phrases. -/
def Phrases.Sound (operators : Table Operator) (limit : Int) : Phrases → Prop
  | .last phrase => phrase.Sound operators limit
  | .more phrase _ rest => phrase.Sound operators limit ∧ rest.Sound operators limit

end

/-- A single argument is not empty. -/
theorem Phrases.ne_nil_of_mem_arguments {ps : Phrases} (h : ps.arguments.length < 2) :
    ∀ p ∈ ps.arguments, p ≠ .nil := by
  intro p hp
  match ps with
  | .last .nil => exact absurd hp List.not_mem_nil
  | .last (.plain t rest) => simp [List.mem_singleton.1 hp, head]
  | .last (.bracket n o i c rest) => simp [List.mem_singleton.1 hp, head]
  | .more q s rest =>
    simp only [arguments, head, tail, List.length_cons] at h
    omega

/-! ## From conditions to shapes -/

/-- A bracket in an acceptable list that belongs to no call has a single phrase inside, and not an
empty one. -/
theorem Acceptable.group_inner {now : Surroundings} {limit : Int} {b after : List Token}
    {o c : Token} {inner : Phrases}
    (h : Acceptable now limit (b ++ o :: (inner.tokens ++ c :: after))) (hm : inner.Matched)
    (ho : o.kind = .openBracket) (hc : c.kind = .closeBracket)
    (hb : isKind .call b.getLast? = false) : ∃ p, inner = .last p ∧ p ≠ .nil := by
  cases inner with
  | last p =>
    refine ⟨p, rfl, ?_⟩
    rintro rfl
    have := h.filled b o c after rfl ho hc
    rw [hb] at this
    cases this
  | more p s rest =>
    -- The separator's bracket can only be this one, and that has no name before it.
    obtain ⟨outer, name, opening, before, heq, hname, hopen, hbal⟩ :=
      h.separated (b ++ o :: p.tokens) s (rest.tokens ++ c :: after) (by simp [Phrases.tokens])
        hm.2.1
    have hsplit : b ++ o :: p.tokens = (outer ++ [name]) ++ opening :: before := by simp [heq]
    obtain ⟨rfl, -, -⟩ := Balanced.opener_unique hsplit hm.1.balanced hbal ho hopen
    simp [isKind, hname] at hb

/-- What is inside the bracket of a call in an acceptable list are arguments. -/
theorem Acceptable.call_arguments {now : Surroundings} {limit : Int} {b after : List Token}
    {f o c : Token} {inner : Phrases}
    (h : Acceptable now limit (b ++ f :: o :: (inner.tokens ++ c :: after))) (hm : inner.Matched)
    (hf : f.kind = .call) (ho : o.kind = .openBracket) (hc : c.kind = .closeBracket) :
    (∀ p ∈ inner.arguments, p ≠ .nil) ∧ Admits limit inner.arguments.length := by
  have hbody : IsCallBody (b ++ f :: o :: (inner.tokens ++ c :: after)) inner.tokens :=
    ⟨b, f, o, c, after, rfl, hf, ho, hc, hm.balanced⟩
  have hcount := h.counted _ hbody
  have hne := h.nonempty _ hbody
  rw [Phrases.arguments_tokens hm, List.length_map] at hcount hne
  refine ⟨fun p hp => ?_, .inr hcount⟩
  rcases Nat.lt_or_ge inner.arguments.length 2 with hlt | hge
  · exact Phrases.ne_nil_of_mem_arguments hlt p hp
  · rintro rfl
    exact hne hge _ (List.mem_map_of_mem hp) rfl

mutual

/-- A phrase inside an acceptable list is sound, if it is not cut off from a bracket after it or
from a name before it. -/
theorem Acceptable.phrase_sound {now : Surroundings} {limit : Int} :
    (p : Phrase) → p.Matched → (b a : List Token) → Acceptable now limit (b ++ (p.tokens ++ a)) →
      isKind .openBracket a.head? = false →
      (isKind .call b.getLast? = true → isKind .openBracket p.tokens.head? = false) →
      p.Sound now.registries.operators limit
  | .nil, _, _, _, _, _, _ => trivial
  | .plain t rest, ⟨hw, hs, hcall, hr⟩, b, a, h, ha, _ => by
    have hk := h.known t (by simp [Phrase.tokens])
    -- A name without its bracket would be cut off from it, which is ruled out by the assumptions.
    have hnc : t.kind ≠ .call := by
      intro htc
      have ho := h.opened b t (rest.tokens ++ a) rfl htc
      have hrest := hcall htc
      cases hts : rest.tokens with
      | nil => simp [hts, ha] at ho
      | cons x xs => simp [hts] at ho hrest; simp [ho] at hrest
    refine ⟨?_, Acceptable.phrase_sound rest hr (b ++ [t]) a (by simpa [Phrase.tokens] using h) ha
      fun htc => hcall (by simpa [isKind] using htc)⟩
    cases hkind : t.kind <;> simp_all [Kind.isValue, Kind.weight]
  | .bracket none o inner c rest, ⟨_, ho, hi, hc, hr⟩, b, a, h, ha, hb => by
    have hb' := Phrase.not_call_before ho hb
    have h' : Acceptable now limit (b ++ o :: (inner.tokens ++ c :: (rest.tokens ++ a))) := by
      simpa [Phrase.tokens] using h
    refine ⟨h'.group_inner hi ho hc hb', ?_, ?_⟩
    · exact Acceptable.phrases_sound inner hi (b ++ [o]) (c :: (rest.tokens ++ a))
        (by simpa using h') (by simp [isKind, hc]) (by simp [isKind, ho])
    · exact Acceptable.phrase_sound rest hr ((b ++ o :: inner.tokens) ++ [c]) a
        (by simpa using h') ha (by rw [List.getLast?_concat]; simp [isKind, hc])
  | .bracket (some f) o inner c rest, ⟨hn, ho, hi, hc, hr⟩, b, a, h, ha, _ => by
    have h' : Acceptable now limit (b ++ f :: o :: (inner.tokens ++ c :: (rest.tokens ++ a))) := by
      simpa [Phrase.tokens] using h
    refine ⟨h'.call_arguments hi (hn f rfl) ho hc, ?_, ?_⟩
    · exact Acceptable.phrases_sound inner hi (b ++ [f, o]) (c :: (rest.tokens ++ a))
        (by simpa using h') (by simp [isKind, hc]) (by simp [isKind, ho])
    · exact Acceptable.phrase_sound rest hr ((b ++ f :: o :: inner.tokens) ++ [c]) a
        (by simpa using h') ha (by rw [List.getLast?_concat]; simp [isKind, hc])

theorem Acceptable.phrases_sound {now : Surroundings} {limit : Int} :
    (ps : Phrases) → ps.Matched → (b a : List Token) →
      Acceptable now limit (b ++ (ps.tokens ++ a)) → isKind .openBracket a.head? = false →
      isKind .call b.getLast? = false → ps.Sound now.registries.operators limit
  | .last p, hp, b, a, h, ha, hb => Acceptable.phrase_sound p hp b a h ha (by simp [hb])
  | .more p s rest, ⟨hp, hs, hr⟩, b, a, h, ha, hb => by
    refine ⟨Acceptable.phrase_sound p hp b (s :: (rest.tokens ++ a))
      (by simpa [Phrases.tokens] using h) (by simp [isKind, hs]) (by simp [hb]), ?_⟩
    exact Acceptable.phrases_sound rest hr (b ++ (p.tokens ++ [s])) a
      (by simpa [Phrases.tokens] using h) ha (by simp [isKind, hs])

end

/-- An acceptable list is the writing of a single sound phrase. -/
theorem Acceptable.exists_phrase {now : Surroundings} {limit : Int} {tokens : List Token}
    (h : Acceptable now limit tokens) :
    ∃ p : Phrase, p.tokens = tokens ∧ p.Matched ∧ p.Sound now.registries.operators limit := by
  obtain ⟨ps, rfl, hm⟩ := h.balanced.exists_phrases
  have hs := Acceptable.phrases_sound ps hm [] [] (by simpa using h) rfl rfl
  cases ps with
  | last p => exact ⟨p, rfl, hm, hs⟩
  | more p s rest =>
    -- A separator outside of all brackets has none around it.
    obtain ⟨outer, name, opening, inner, heq, -, hopen, hbal⟩ :=
      h.separated p.tokens s rest.tokens rfl hm.2.1
    have hp := hm.1.balanced
    rw [heq, ← List.singleton_append, ← List.append_assoc] at hp
    exact (hp.not_opener hbal hopen).elim

/-! ## From shapes to conditions -/

/-- Something holds of every token of `ts`, with the tokens before and after it, when `ts` stands
between `before` and `after`. -/
def Everywhere (P : List Token → Token → List Token → Prop) :
    List Token → List Token → List Token → Prop
  | _, [], _ => True
  | before, t :: ts, after => P before t (ts ++ after) ∧ Everywhere P (before ++ [t]) ts after

theorem everywhere_append {P : List Token → Token → List Token → Prop} {b xs ys a : List Token} :
    Everywhere P b (xs ++ ys) a ↔ Everywhere P b xs (ys ++ a) ∧ Everywhere P (b ++ xs) ys a := by
  induction xs generalizing b with
  | nil => simp [Everywhere]
  | cons x xs ih => simp [Everywhere, ih, and_assoc]

theorem Everywhere.at {P : List Token → Token → List Token → Prop} {b ts a : List Token}
    (h : Everywhere P b ts a) {xs ys : List Token} {t : Token} (ht : ts = xs ++ t :: ys) :
    P (b ++ xs) t (ys ++ a) := by
  rw [ht, everywhere_append] at h
  exact h.2.1

/-- What a single place of an acceptable list has to satisfy. -/
structure FitsAt (operators : Table Operator) (limit : Int) (before : List Token) (t : Token)
    (after : List Token) : Prop where
  known : (∀ name, t.kind ≠ .other name) ∧
    (t.kind = .operator → operators.contains t.text = true)
  opened : t.kind = .call → isKind .openBracket after.head? = true
  separated : t.kind = .separator → ∃ outer name opening inner,
    before = outer ++ name :: opening :: inner ∧ name.kind = .call ∧
      opening.kind = .openBracket ∧ Balanced inner
  filled : t.kind = .openBracket → isKind .closeBracket after.head? = true →
    isKind .call before.getLast? = true
  body : t.kind = .call → ∀ o inner c rest, after = o :: (inner ++ c :: rest) →
    c.kind = .closeBracket → Balanced inner →
      (∀ a ∈ arguments inner, a ≠ []) ∧ Admits limit (arguments inner).length

/-- A token of a kind that asks for nothing fits wherever it stands. -/
theorem FitsAt.of_value {operators : Table Operator} {limit : Int} {b a : List Token} {t : Token}
    (h : t.kind.isValue = true ∨ t.kind = .operator ∧ operators.contains t.text = true) :
    FitsAt operators limit b t a := by
  rcases h with h | ⟨h, hreg⟩
  · cases hk : t.kind <;> simp [hk, Kind.isValue] at h <;> constructor <;> simp [hk]
  · constructor <;> simp [h, hreg]

/-- A closing bracket fits wherever it stands. -/
theorem FitsAt.of_close {operators : Table Operator} {limit : Int} {b a : List Token} {c : Token}
    (h : c.kind = .closeBracket) : FitsAt operators limit b c a := by
  constructor <;> simp [h]

/-- An opening bracket fits after the name of a call and before anything but its partner. -/
theorem FitsAt.of_open {operators : Table Operator} {limit : Int} {b a : List Token} {o : Token}
    (h : o.kind = .openBracket)
    (hb : isKind .closeBracket a.head? = true → isKind .call b.getLast? = true) :
    FitsAt operators limit b o a := by
  constructor <;> simp [h]
  exact hb

/-- The name of a call fits before its bracket. -/
theorem FitsAt.of_call {operators : Table Operator} {limit : Int} {b a : List Token}
    {f o c : Token} {inner : Phrases} (hf : f.kind = .call) (ho : o.kind = .openBracket)
    (hi : inner.Matched) (hc : c.kind = .closeBracket) (hne : ∀ p ∈ inner.arguments, p ≠ .nil)
    (hcount : Admits limit inner.arguments.length) :
    FitsAt operators limit b f (o :: (inner.tokens ++ c :: a)) where
  known := by simp [hf]
  opened _ := by simp [isKind, ho]
  separated := by simp [hf]
  filled := by simp [hf]
  body _ o' inner' c' rest' heq hc' hbal := by
    rw [List.cons.injEq] at heq
    obtain ⟨rfl, -, -⟩ := Balanced.partner_unique heq.2 hi.balanced hbal hc hc'
    rw [Phrases.arguments_tokens hi]
    refine ⟨fun ts hts => ?_, by simpa only [List.length_map] using hcount⟩
    obtain ⟨p, hp, rfl⟩ := List.mem_map.1 hts
    exact fun hnil => hne p hp (Phrase.tokens_eq_nil_iff.1 hnil)

/-- A phrase does not begin with a bracket that closes. -/
theorem Phrase.Matched.head_ne_close {p : Phrase} (h : p.Matched) :
    isKind .closeBracket p.tokens.head? = false := by
  cases p with
  | nil => rfl
  | plain t rest => simpa [Phrase.tokens, isKind] using (Kind.weight_eq_zero_iff.1 h.1).2
  | bracket name o inner c rest =>
    cases name with
    | none => simp [Phrase.tokens, isKind, h.2.1]
    | some f => simp [Phrase.tokens, isKind, h.1 f rfl]

theorem Phrase.Matched.head_append {p : Phrase} (h : p.Matched) (hne : p ≠ .nil)
    (ts : List Token) : isKind .closeBracket (p.tokens ++ ts).head? = false := by
  have hp := h.head_ne_close
  cases hts : p.tokens with
  | nil => exact absurd (Phrase.tokens_eq_nil_iff.1 hts) hne
  | cons t rest => simpa [hts] using hp

mutual

/-- Everything in a sound phrase fits, wherever the phrase stands. -/
theorem Phrase.Sound.fits {operators : Table Operator} {limit : Int} :
    (p : Phrase) → p.Matched → p.Sound operators limit → (b a : List Token) →
      Everywhere (FitsAt operators limit) b p.tokens a
  | .nil, _, _, _, _ => trivial
  | .plain t rest, hm, hs, b, a =>
    ⟨.of_value hs.1, Phrase.Sound.fits rest hm.2.2.2 hs.2 (b ++ [t]) a⟩
  | .bracket none o (.last p) c rest, ⟨_, ho, hi, hc, hr⟩, ⟨⟨q, hq, hne⟩, hsi, hsr⟩, b, a => by
    obtain rfl := Phrases.last.inj hq
    have hhead := Phrase.Matched.head_append hi hne (c :: (rest.tokens ++ a))
    refine ⟨.of_open ho fun h => ?_, everywhere_append.2 ⟨?_, .of_close hc, ?_⟩⟩
    · rw [List.append_assoc] at h
      exact absurd (hhead.symm.trans h) (by decide)
    · exact Phrase.Sound.fits p hi hsi _ _
    · exact Phrase.Sound.fits rest hr hsr _ _
  | .bracket none o (.more p s ps) c rest, _, ⟨⟨q, hq, _⟩, _, _⟩, b, a => by cases hq
  | .bracket (some f) o inner c rest, ⟨hn, ho, hi, hc, hr⟩, ⟨⟨hne, hcount⟩, hsi, hsr⟩, b, a => by
    have hf := hn f rfl
    refine ⟨?_, .of_open ho fun _ => by simp [isKind, hf],
      everywhere_append.2 ⟨?_, .of_close hc, ?_⟩⟩
    · simpa using FitsAt.of_call (a := rest.tokens ++ a) hf ho hi hc hne hcount
    · simpa using Phrases.Sound.fits inner hi hsi b f o [] _ hf ho .nil
    · exact Phrase.Sound.fits rest hr hsr _ _

/-- Everything in the arguments of a call fits; `done` are the arguments before them. -/
theorem Phrases.Sound.fits {operators : Table Operator} {limit : Int} :
    (ps : Phrases) → ps.Matched → ps.Sound operators limit → (b : List Token) → (f o : Token) →
      (done a : List Token) → f.kind = .call → o.kind = .openBracket → Balanced done →
        Everywhere (FitsAt operators limit) (b ++ f :: o :: done) ps.tokens a
  | .last p, hm, hs, _, _, _, _, _, _, _, _ => Phrase.Sound.fits p hm hs _ _
  | .more p s rest, ⟨hp, hs, hr⟩, ⟨hsp, hsr⟩, b, f, o, done, a, hf, ho, hd => by
    have hw : s.kind.weight = 0 := by rw [hs]; rfl
    have hp' := hd.append hp.balanced
    refine everywhere_append.2 ⟨Phrase.Sound.fits p hp hsp _ _, ?_, ?_⟩
    · have hsep : ∃ outer name opening inner, b ++ f :: o :: done ++ p.tokens
          = outer ++ name :: opening :: inner ∧ name.kind = .call ∧
            opening.kind = .openBracket ∧ Balanced inner :=
        ⟨b, f, o, done ++ p.tokens, by simp, hf, ho, hp'⟩
      constructor <;> simp only [hs, reduceCtorEq, false_implies, ne_eq, not_false_eq_true,
        implies_true, and_self]
      exact fun _ => hsep
    · simpa using Phrases.Sound.fits rest hr hsr b f o (done ++ p.tokens ++ [s]) a hf ho
        (hp'.append (Balanced.singleton hw))

end

/-- **Acceptable token lists are the new ones that are written in sound phrases.** -/
theorem acceptable_iff {now : Surroundings} {limit : Int} {tokens : List Token}
    (h0 : 0 ≤ limit) :
    Acceptable now limit tokens ↔
      (∀ t ∈ tokens, t.kind = .call → now.sheet.args? t.handle = none) ∧
        ∃ p : Phrase, p.tokens = tokens ∧ p.Matched ∧ p.Sound now.registries.operators limit := by
  refine ⟨fun h => ⟨h.fresh, h.exists_phrase⟩, ?_⟩
  rintro ⟨hfresh, p, rfl, hm, hs⟩
  have fits {b a : List Token} {t : Token} (h : p.tokens = b ++ t :: a) :
      FitsAt now.registries.operators limit b t a := by
    simpa using (Phrase.Sound.fits p hm hs [] []).at h
  have body {inner : List Token} (h : IsCallBody p.tokens inner) :
      (∀ a ∈ arguments inner, a ≠ []) ∧ Admits limit (arguments inner).length := by
    obtain ⟨b, f, o, c, a, heq, hf, ho, hc, hbal⟩ := h
    exact (fits heq).body hf o inner c a rfl hc hbal
  refine ⟨hfresh, fun t ht => ?_, hm.balanced, fun b t a h => (fits h).opened,
    fun b t a h => (fits h).separated, fun b o c a h ho hc => ?_, fun inner h _ => (body h).1,
    fun inner h => ?_⟩
  · obtain ⟨b, a, h⟩ := List.append_of_mem ht
    exact (fits h).known
  · exact (fits h).filled ho (by simp [isKind, hc])
  · rcases (body h).2 with hnone | hcount
    · rw [hnone]
      exact h0
    · exact hcount

end Polish
