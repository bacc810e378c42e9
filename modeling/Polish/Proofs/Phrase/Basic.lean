import Polish.Proofs.Phrase.Balance

/-!
# Phrases

A token list with matching brackets has a shape: tokens and bracket groups in a row, and
separators that divide the row.  A `Phrase` is what stands between two separators, a `Phrases`
value is several of them with the separators between; inside a bracket there are `Phrases` again.
A bracket that stands directly after the name of a call belongs to it, and the name is kept with
the bracket.

* `Phrases.tokens` writes the shape out again;
* `Phrases.Matched` says that the shape is the one that the kinds of the tokens dictate;
* `Balanced.exists_phrases` — every balanced token list has such a shape;
* `arguments` cuts a token list at its separators outside of brackets, and `arguments_tokens` says
  that this gives the phrases.

## How the proof goes

The induction for `Balanced.exists_phrases` is on the length of the list.  A bracket has a partner,
and what is between the two and what follows are shorter balanced lists.  A separator begins another
phrase.  Any other token is put before the first phrase of the rest (`Phrase.cons`), and if it is
the name of a call and that phrase begins with a bracket, it becomes a part of the bracket.
-/

set_option autoImplicit false

namespace Polish

open Compile (isKind)

mutual

/-- Tokens and bracket groups in a row. -/
inductive Phrase where
  | nil
  | plain (token : Token) (rest : Phrase)
  /-- A bracket with its partner and what is inside; `name` is the call that it belongs to. -/
  | bracket (name : Option Token) (opening : Token) (inner : Phrases) (closing : Token)
    (rest : Phrase)

/-- Phrases with separators between them. -/
inductive Phrases where
  | last (phrase : Phrase)
  | more (phrase : Phrase) (separator : Token) (rest : Phrases)

end

/-! ## Tokens and parts -/

mutual

/-- The tokens of a phrase. -/
def Phrase.tokens : Phrase → List Token
  | .nil => []
  | .plain token rest => token :: rest.tokens
  | .bracket name opening inner closing rest =>
    name.toList ++ opening :: (inner.tokens ++ closing :: rest.tokens)

/-- The tokens of several phrases. -/
def Phrases.tokens : Phrases → List Token
  | .last phrase => phrase.tokens
  | .more phrase separator rest => phrase.tokens ++ separator :: rest.tokens

end

namespace Phrases

/-- The first phrase. -/
def head : Phrases → Phrase
  | last phrase => phrase
  | more phrase _ _ => phrase

/-- The phrases after the first one. -/
def tail : Phrases → List Phrase
  | last _ => []
  | more _ _ rest => rest.head :: rest.tail

/-- The phrases as the arguments of a call: nothing at all is no argument. -/
def arguments : Phrases → List Phrase
  | last .nil => []
  | ps => ps.head :: ps.tail

theorem arguments_of_ne {ps : Phrases} (h : ps ≠ last .nil) :
    ps.arguments = ps.head :: ps.tail := by
  cases ps with
  | more => rfl
  | last p =>
    cases p with
    | nil => exact absurd rfl h
    | plain => rfl
    | bracket => rfl

end Phrases

/-- A phrase that is one of several. -/
inductive Phrase.Part (p : Phrase) : Phrases → Prop
  | last : Part p (.last p)
  | first (separator : Token) (rest : Phrases) : Part p (.more p separator rest)
  | later (phrase : Phrase) (separator : Token) {rest : Phrases} (h : Part p rest) :
    Part p (.more phrase separator rest)

namespace Phrases

theorem part_of_mem : (ps : Phrases) → ∀ p ∈ ps.head :: ps.tail, p.Part ps
  | last phrase, p, hp => by
    obtain rfl := List.mem_singleton.1 hp
    exact .last
  | more phrase separator rest, p, hp => by
    rcases List.mem_cons.1 hp with rfl | hp
    · exact .first separator rest
    · exact .later phrase separator (rest.part_of_mem p hp)

theorem part_of_mem_arguments {ps : Phrases} {p : Phrase} (h : p ∈ ps.arguments) : p.Part ps := by
  by_cases hbare : ps = last .nil
  · subst hbare
    cases h
  · rw [arguments_of_ne hbare] at h
    exact ps.part_of_mem p h

end Phrases

/-! ## The shape that the kinds dictate -/

mutual

/-- Brackets are where a bracket is due and have their partners, and a name directly before a
bracket is kept with it. -/
def Phrase.Matched : Phrase → Prop
  | .nil => True
  | .plain token rest =>
    token.kind.weight = 0 ∧ token.kind ≠ .separator ∧
      (token.kind = .call → isKind .openBracket rest.tokens.head? = false) ∧ rest.Matched
  | .bracket name opening inner closing rest =>
    (∀ f ∈ name, f.kind = .call) ∧ opening.kind = .openBracket ∧ inner.Matched ∧
      closing.kind = .closeBracket ∧ rest.Matched

/-- The same of several phrases. -/
def Phrases.Matched : Phrases → Prop
  | .last phrase => phrase.Matched
  | .more phrase separator rest => phrase.Matched ∧ separator.kind = .separator ∧ rest.Matched

end

theorem Phrases.Matched.head {ps : Phrases} (h : ps.Matched) : ps.head.Matched := by
  cases ps with
  | last => exact h
  | more => exact h.1

/-- A bracket that is not kept with a name has none before it. -/
theorem Phrase.not_call_before {before : Option Token} {o c : Token} {inner : Phrases}
    {rest : Phrase} (ho : o.kind = .openBracket)
    (h : isKind .call before = true →
      isKind .openBracket (Phrase.bracket none o inner c rest).tokens.head? = false) :
    isKind .call before = false := by
  cases hb : isKind .call before with
  | false => rfl
  | true => simpa [Phrase.tokens, isKind, ho] using h hb

mutual

theorem Phrase.Matched.balanced : {p : Phrase} → p.Matched → Balanced p.tokens
  | .nil, _ => .nil
  | .plain _ _, ⟨hw, _, _, hr⟩ => (Balanced.singleton hw).append hr.balanced
  | .bracket name o inner c rest, ⟨hn, ho, hi, hc, hr⟩ => by
    have hgroup := (Balanced.enclose ho hi.balanced hc).append hr.balanced
    rw [Phrase.tokens]
    cases name with
    | none => simpa using hgroup
    | some f =>
      have hw : f.kind.weight = 0 := by rw [hn f rfl]; rfl
      simpa using (Balanced.singleton hw).append hgroup

theorem Phrases.Matched.balanced : {ps : Phrases} → ps.Matched → Balanced ps.tokens
  | .last _, h => Phrase.Matched.balanced h
  | .more p s rest, ⟨hp, hs, hr⟩ => by
    have hw : s.kind.weight = 0 := by rw [hs]; rfl
    exact hp.balanced.append ((Balanced.singleton hw).append hr.balanced)

end

/-! ## Every balanced list has a shape -/

namespace Phrases

/-- Changes the first phrase. -/
def mapHead (f : Phrase → Phrase) : Phrases → Phrases
  | last phrase => last (f phrase)
  | more phrase separator rest => more (f phrase) separator rest

theorem tokens_mapHead {f : Phrase → Phrase} (start : List Token)
    (hf : ∀ p, (f p).tokens = start ++ p.tokens) (ps : Phrases) :
    (ps.mapHead f).tokens = start ++ ps.tokens := by
  cases ps with
  | last p => exact hf p
  | more p s rest => simp [mapHead, tokens, hf]

theorem Matched.mapHead {f : Phrase → Phrase} {ps : Phrases} (h : ps.Matched)
    (hf : (f ps.head).Matched) : (ps.mapHead f).Matched := by
  cases ps with
  | last => exact hf
  | more => exact ⟨hf, h.2.1, h.2.2⟩

end Phrases

/-- Puts a token before a phrase; the name of a call takes a bracket that follows directly. -/
def Phrase.cons (t : Token) : Phrase → Phrase
  | .bracket none o inner c rest =>
    if t.kind = .call then .bracket (some t) o inner c rest
    else .plain t (.bracket none o inner c rest)
  | p => .plain t p

theorem Phrase.tokens_cons (t : Token) (p : Phrase) : (p.cons t).tokens = t :: p.tokens := by
  unfold Phrase.cons
  split
  · split <;> rfl
  · rfl

theorem Phrase.Matched.cons {t : Token} {p : Phrase} (h : p.Matched) (hw : t.kind.weight = 0)
    (hs : t.kind ≠ .separator) : (p.cons t).Matched := by
  cases p with
  | nil => exact ⟨hw, hs, fun _ => rfl, h⟩
  | plain s rest =>
    have ho := (Kind.weight_eq_zero_iff.1 h.1).1
    exact ⟨hw, hs, fun _ => by simpa [isKind, Phrase.tokens] using ho, h⟩
  | bracket name o inner c rest =>
    cases name with
    | none =>
      rw [Phrase.cons]
      split
      · next hk => exact ⟨by simpa using hk, h.2⟩
      · next hk => exact ⟨hw, hs, fun hk' => absurd hk' hk, h⟩
    | some f => exact ⟨hw, hs, fun _ => by simp [isKind, Phrase.tokens, h.1 f rfl], h⟩

/-- **Every balanced list has a shape.** -/
theorem Balanced.exists_phrases {ts : List Token} (h : Balanced ts) :
    ∃ ps : Phrases, ps.tokens = ts ∧ ps.Matched := by
  match ts with
  | [] => exact ⟨.last .nil, rfl, trivial⟩
  | t :: rest =>
    by_cases ho : t.kind = .openBracket
    · obtain ⟨inner, c, after, rfl, hc, hin, haf⟩ := h.exists_partner ho
      obtain ⟨is, rfl, his⟩ := hin.exists_phrases
      obtain ⟨as, rfl, has⟩ := haf.exists_phrases
      refine ⟨as.mapHead (.bracket none t is c), ?_, has.mapHead ?_⟩
      · rw [Phrases.tokens_mapHead (t :: (is.tokens ++ [c])) (by simp [Phrase.tokens])]
        simp
      · exact ⟨by simp, ho, his, hc, has.head⟩
    · have hw : t.kind.weight = 0 := by
        have := h.prefix_nonneg [t] ⟨rest, rfl⟩
        cases hk : t.kind <;> simp_all [Kind.weight]
      have hrest : Balanced rest :=
        (show Balanced ([t] ++ rest) from h).right (by simp [hw])
      obtain ⟨ps, rfl, hps⟩ := hrest.exists_phrases
      by_cases hs : t.kind = .separator
      · exact ⟨.more .nil t ps, rfl, trivial, hs, hps⟩
      · exact ⟨ps.mapHead (Phrase.cons t), Phrases.tokens_mapHead [t] (Phrase.tokens_cons t) ps,
          hps.mapHead (hps.head.cons hw hs)⟩
termination_by ts.length
decreasing_by all_goals simp_all <;> omega

/-! ## Cutting at separators -/

/-- The tokens before the first separator outside of brackets, and the tokens between any two
further ones, given the number of brackets that are open. -/
def segments : Nat → List Token → List Token × List (List Token)
  | _, [] => ([], [])
  | depth, t :: rest =>
    let (first, others) := match t.kind with
      | .openBracket => segments (depth + 1) rest
      | .closeBracket => segments (depth - 1) rest
      | _ => segments depth rest
    if t.kind = .separator ∧ depth = 0 then ([], first :: others) else (t :: first, others)

/-- The tokens of each argument in what is between the brackets of a call. -/
def arguments (tokens : List Token) : List (List Token) :=
  if tokens.isEmpty then []
  else (segments 0 tokens).1 :: (segments 0 tokens).2

theorem segments_plain {depth : Nat} {t : Token} {ts : List Token} (hw : t.kind.weight = 0)
    (hs : t.kind = .separator → depth ≠ 0) :
    segments depth (t :: ts) = (t :: (segments depth ts).1, (segments depth ts).2) := by
  cases hk : t.kind <;> simp_all [segments, Kind.weight]

theorem segments_separator {t : Token} {ts : List Token} (hs : t.kind = .separator) :
    segments 0 (t :: ts) = ([], (segments 0 ts).1 :: (segments 0 ts).2) := by
  simp [segments, hs]

theorem segments_open {depth : Nat} {t : Token} {ts : List Token} (ho : t.kind = .openBracket) :
    segments depth (t :: ts) = (t :: (segments (depth + 1) ts).1, (segments (depth + 1) ts).2) := by
  simp [segments, ho]

theorem segments_close {depth : Nat} {t : Token} {ts : List Token} (hc : t.kind = .closeBracket) :
    segments depth (t :: ts) = (t :: (segments (depth - 1) ts).1, (segments (depth - 1) ts).2) := by
  simp [segments, hc]

mutual

/-- A phrase holds no separator outside of its brackets. -/
theorem Phrase.segments_append : (p : Phrase) → p.Matched → (d : Nat) → (ts : List Token) →
    segments d (p.tokens ++ ts) = (p.tokens ++ (segments d ts).1, (segments d ts).2)
  | .nil, _, _, _ => rfl
  | .plain t rest, ⟨hw, hs, _, hr⟩, d, ts => by
    rw [Phrase.tokens, List.cons_append, segments_plain hw fun h => absurd h hs,
      Phrase.segments_append rest hr]
    rfl
  | .bracket name o inner c rest, ⟨hn, ho, hi, hc, hr⟩, d, ts => by
    have hgroup : segments d (o :: (inner.tokens ++ c :: rest.tokens) ++ ts)
        = (o :: (inner.tokens ++ c :: rest.tokens) ++ (segments d ts).1, (segments d ts).2) := by
      rw [List.cons_append, segments_open ho, List.append_assoc, List.cons_append,
        Phrases.segments_append inner hi, segments_close hc, Nat.add_sub_cancel,
        Phrase.segments_append rest hr]
      simp
    cases name with
    | none => exact hgroup
    | some f =>
      have hf := hn f rfl
      have hw : f.kind.weight = 0 := by rw [hf]; rfl
      rw [Phrase.tokens, Option.toList, List.cons_append, List.nil_append, List.cons_append,
        segments_plain hw (by simp [hf]), hgroup]
      rfl

/-- Inside a bracket, separators do not count. -/
theorem Phrases.segments_append : (ps : Phrases) → ps.Matched → (d : Nat) → (ts : List Token) →
    segments (d + 1) (ps.tokens ++ ts)
      = (ps.tokens ++ (segments (d + 1) ts).1, (segments (d + 1) ts).2)
  | .last p, hp, d, ts => Phrase.segments_append p hp (d + 1) ts
  | .more p s rest, ⟨hp, hs, hr⟩, d, ts => by
    have hw : s.kind.weight = 0 := by rw [hs]; rfl
    rw [Phrases.tokens, List.append_assoc, Phrase.segments_append p hp, List.cons_append,
      segments_plain hw (by simp), Phrases.segments_append rest hr]
    simp

end

theorem Phrases.segments_tokens : (ps : Phrases) → ps.Matched →
    segments 0 ps.tokens = (ps.head.tokens, ps.tail.map Phrase.tokens)
  | .last p, h => by
    simpa [segments, Phrases.tokens, Phrases.head, Phrases.tail] using
      Phrase.segments_append p h 0 []
  | .more p s rest, h => by
    rw [Phrases.tokens, Phrase.segments_append p h.1, segments_separator h.2.1,
      Phrases.segments_tokens rest h.2.2]
    simp [Phrases.head, Phrases.tail]

theorem Phrase.tokens_eq_nil_iff {p : Phrase} : p.tokens = [] ↔ p = .nil := by
  cases p <;> simp [Phrase.tokens]

theorem Phrases.tokens_eq_nil_iff {ps : Phrases} : ps.tokens = [] ↔ ps = .last .nil := by
  cases ps <;> simp [Phrases.tokens, Phrase.tokens_eq_nil_iff]

/-- **The arguments of a call are its phrases.** -/
theorem Phrases.arguments_tokens {ps : Phrases} (h : ps.Matched) :
    Polish.arguments ps.tokens = ps.arguments.map Phrase.tokens := by
  unfold Polish.arguments
  by_cases hn : ps = .last .nil
  · subst hn; rfl
  · rw [if_neg (by simpa [Phrases.tokens_eq_nil_iff] using hn), ps.segments_tokens h,
      Phrases.arguments_of_ne hn]
    rfl

end Polish
