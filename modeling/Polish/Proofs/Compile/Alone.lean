import Polish.Proofs.Compile.Contents
import Polish.Proofs.Compile.Expression

/-!
# Arguments compile alone

The arguments of a call share one output and one stack with everything around them, and still they
become what they become when each of them is compiled by itself.  The shape of a token list shows
why: what is inside a bracket is scanned on a yard of its own, so the arguments of a call are the
listings of its phrases, and each phrase is the shape of its own tokens.

* `AttachesAt` — at the name of a call: its bracket has a partner, and what is attached to the call
  and to the calls inside of it comes of the phrases between the two;
* `Engine.arguments_alone` — the arguments of a call, anywhere in a token list that compiles.

## How the proof goes

Nothing is compared with anything here.  The list that compiles is the writing of a sound phrase,
and `Phrase.attaches` goes down the phrase: at a call, the partner of its bracket is the one that
the phrase ends with, what is between the two is the writing of the arguments, and what is attached
to the calls inside of them comes from the induction hypothesis.  Each argument is matched and sound
as a part of the whole, so it compiles by the same theorem that took the whole list apart,
`Job.run_ok_iff`.  A phrase is determined by its tokens, and therefore what is said about the
phrases between two brackets is said about the lists.
-/

set_option autoImplicit false

namespace Polish

open Compile (Compiled)

/-! ## Calls in a phrase -/

section

variable {m : Mode} {operators : Table Operator} {limit : Int}
  {entries : List (Nat × List (List Token))}

/-- What is attached to a call comes of the phrases in its bracket, and so does what is attached to
the calls inside of it. -/
def AttachesAt (m : Mode) (operators : Table Operator) (limit : Int)
    (entries : List (Nat × List (List Token))) (_before : List Token) (t : Token)
    (after : List Token) : Prop :=
  t.kind = .call → ∃ (o : Token) (inner : Phrases) (c : Token) (rest : List Token),
    after = o :: (inner.tokens ++ c :: rest) ∧ o.kind = .openBracket ∧ c.kind = .closeBracket ∧
    inner.Matched ∧ inner.Sound operators limit ∧ inner.entries m operators ⊆ entries ∧
    (t.handle, inner.arguments.map (Phrase.listing m operators)) ∈ entries

theorem AttachesAt.of_ne {before after : List Token} {t : Token} (h : t.kind ≠ .call) :
    AttachesAt m operators limit entries before t after := fun hk => absurd hk h

mutual

/-- Every call of a phrase has its arguments attached, wherever the phrase stands. -/
theorem Phrase.attaches : (p : Phrase) → p.Matched → p.Sound operators limit →
    p.entries m operators ⊆ entries → (b a : List Token) →
      Everywhere (AttachesAt m operators limit entries) b p.tokens a
  | .nil, _, _, _, _, _ => trivial
  | .plain t rest, ⟨_, _, _, hr⟩, ⟨hk, hsr⟩, he, b, a => by
    refine ⟨.of_ne ?_, rest.attaches hr hsr he _ a⟩
    rintro hcall
    rw [hcall] at hk
    rcases hk with hk | ⟨hk, -⟩ <;> cases hk
  | .bracket none o inner c rest, ⟨_, ho, hi, hc, hr⟩, ⟨_, hsi, hsr⟩, he, b, a => by
    have hinner : inner.entries m operators ⊆ entries := fun entry h =>
      he (Mode.mem_join.2 (.inl (List.mem_append_left _ h)))
    have hrest : rest.entries m operators ⊆ entries := fun entry h =>
      he (Mode.mem_join.2 (.inr h))
    exact ⟨.of_ne (by simp [ho]), everywhere_append.2 ⟨inner.attaches hi hsi hinner _ _,
      .of_ne (by simp [hc]), rest.attaches hr hsr hrest _ _⟩⟩
  | .bracket (some f) o inner c rest, ⟨_, ho, hi, hc, hr⟩, ⟨_, hsi, hsr⟩, he, b, a => by
    have hinner : inner.entries m operators ⊆ entries := fun entry h =>
      he (Mode.mem_join.2 (.inl (List.mem_append_left _ h)))
    have hrest : rest.entries m operators ⊆ entries := fun entry h =>
      he (Mode.mem_join.2 (.inr h))
    have hself : (f.handle, inner.arguments.map (Phrase.listing m operators)) ∈ entries :=
      he (Mode.mem_join.2 (.inl (List.mem_append_right _ List.mem_cons_self)))
    refine ⟨fun _ => ⟨o, inner, c, rest.tokens ++ a, ?_, ho, hc, hi, hsi, hinner, hself⟩,
      .of_ne (by simp [ho]), everywhere_append.2 ⟨inner.attaches hi hsi hinner _ _,
        .of_ne (by simp [hc]), rest.attaches hr hsr hrest _ _⟩⟩
    simp

/-- The same of several phrases. -/
theorem Phrases.attaches : (ps : Phrases) → ps.Matched → ps.Sound operators limit →
    ps.entries m operators ⊆ entries → (b a : List Token) →
      Everywhere (AttachesAt m operators limit entries) b ps.tokens a
  | .last p, hm, hs, he, b, a => p.attaches hm hs he b a
  | .more p sep rest, ⟨hm, hsep, hr⟩, ⟨hs, hsr⟩, he, b, a =>
    everywhere_append.2 ⟨p.attaches hm hs (fun _ h => he (Mode.mem_join.2 (.inl h))) _ _,
      .of_ne (by simp [hsep]),
      rest.attaches hr hsr (fun _ h => he (Mode.mem_join.2 (.inr h))) _ _⟩

end

/-- The arguments of a call are shaped as their tokens say, are sound, and attach what they attach
in the call. -/
theorem Phrase.Part.inside {p : Phrase} {ps : Phrases} (h : p.Part ps) (hm : ps.Matched)
    (hs : ps.Sound operators limit) :
    p.Matched ∧ p.Sound operators limit ∧ p.entries m operators ⊆ ps.entries m operators := by
  induction h with
  | last => exact ⟨hm, hs, List.Subset.refl _⟩
  | first => exact ⟨hm.1, hs.1, fun _ h => Mode.mem_join.2 (.inl h)⟩
  | later _ _ _ ih =>
    obtain ⟨hpm, hps, hpe⟩ := ih hm.2.2 hs.2
    exact ⟨hpm, hps, fun _ h => Mode.mem_join.2 (.inr (hpe h))⟩

end

/-! ## Compilations -/

namespace Engine

variable {e : Engine} {sheet : Sheet} {tokens : List Token} {m : Mode} {source : Option String}
  {c : Compiled}

/-- What a sound phrase compiles to. -/
def compiledPhrase (e : Engine) (m : Mode) (p : Phrase) : Compiled :=
  ⟨p.listing m e.registries.operators, p.entries m e.registries.operators,
    (e.registries.firstUnknown? p.tokens).isNone⟩

/-- Each of the phrases in the bracket of a call compiles by itself, on any sheet on which its calls
are new. -/
theorem compile_arguments {ps : Phrases} (hm : ps.Matched)
    (hs : ps.Sound e.registries.operators e.limits.functionArgs)
    (hnew : ∀ t ∈ ps.tokens, t.kind = .call → sheet.args? t.handle = none)
    (source : Option String) :
    (arguments ps.tokens).map (e.compile sheet · m.name source)
      = (ps.arguments.map (e.compiledPhrase m)).map .ok := by
  rw [Phrases.arguments_tokens hm, List.map_map, List.map_map]
  refine List.map_congr_left fun p hp => ?_
  have hpart := Phrases.part_of_mem_arguments hp
  obtain ⟨hpm, hps, -⟩ := hpart.inside (m := m) hm hs
  exact compile_ok_iff.2 ⟨fun t ht => hnew t (hpart.subset ht), p, rfl, hpm, hps, rfl⟩

/-- Every call of a token list that compiles has its arguments attached. -/
theorem attachesAt_of_compile (hc : e.compile sheet tokens m.name source = .ok c)
    {before rest : List Token} {name : Token} (htokens : tokens = before ++ name :: rest) :
    AttachesAt m e.registries.operators e.limits.functionArgs c.attached before name rest := by
  obtain ⟨-, p, hp, hm, hs, rfl⟩ := compile_ok_iff.1 hc
  simpa using (p.attaches hm hs (List.Subset.refl _) [] []).at (hp.trans htokens)

/-- What the phrases in a bracket compile to follows from their tokens. -/
theorem compiledPhrase_unique {ps qs : Phrases} (hm : ps.Matched) (hm' : qs.Matched)
    (hs : ps.Sound e.registries.operators e.limits.functionArgs)
    (hs' : qs.Sound e.registries.operators e.limits.functionArgs) (h : ps.tokens = qs.tokens) :
    ps.arguments.map (e.compiledPhrase m) = qs.arguments.map (e.compiledPhrase m) := by
  have hps : (arguments ps.tokens).map (e.compile .empty · m.name none) = _ :=
    compile_arguments hm hs (fun _ _ _ => rfl) none
  have hqs : (arguments qs.tokens).map (e.compile .empty · m.name none) = _ :=
    compile_arguments hm' hs' (fun _ _ _ => rfl) none
  rw [h, hqs] at hps
  exact ((List.map_inj_right fun _ _ => Except.ok.inj).1 hps).symm

/-- **The arguments of a call compile alone.**  Wherever a call is in a token list that compiles,
its bracket has a partner, and what is attached to the call are the listings that come of compiling
each of the arguments between the two by itself, in order; what these compilations attach to the
calls inside is attached here, too.  And whatever stands around the same call in another token list
that compiles, the same is attached to it. -/
theorem arguments_alone (hc : e.compile sheet tokens m.name source = .ok c)
    {before rest : List Token} {name : Token} (htokens : tokens = before ++ name :: rest)
    (hname : name.kind = .call) :
    ∃ (opening : Token) (inner : List Token) (closing : Token) (after : List Token)
      (alone : List Compiled),
      (rest = opening :: (inner ++ closing :: after) ∧ opening.kind = .openBracket ∧
        closing.kind = .closeBracket ∧ Balanced inner) ∧
      (∀ source, (arguments inner).map (e.compile sheet · m.name source) = alone.map .ok) ∧
      (name.handle, alone.map Compiled.listing) ∈ c.attached ∧
      (∀ found ∈ alone, found.attached ⊆ c.attached) ∧
      (((tokens.filter (·.kind = .call)).map Token.handle).Nodup →
        (sheet.attachAll c.attached).args? name.handle = some (alone.map Compiled.listing)) ∧
      ∀ (other : Sheet) (before' after' : List Token) (source' : Option String) (c' : Compiled),
        e.compile other (before' ++ name :: opening :: (inner ++ closing :: after')) m.name source'
          = .ok c' → (name.handle, alone.map Compiled.listing) ∈ c'.attached := by
  obtain ⟨o, inner, cl, after, rfl, ho, hcl, hm, hs, hentries, hself⟩ :=
    attachesAt_of_compile hc htokens hname
  obtain ⟨hnew, p, hp, hpm, hps, hcompiled⟩ := compile_ok_iff.1 hc
  have hlistings (ps : Phrases) : (ps.arguments.map (e.compiledPhrase m)).map Compiled.listing
      = ps.arguments.map (Phrase.listing m e.registries.operators) := List.map_map
  refine ⟨o, inner.tokens, cl, after, inner.arguments.map (e.compiledPhrase m),
    ⟨rfl, ho, hcl, hm.balanced⟩, fun source => ?_, ?_, ?_, ?_, ?_⟩
  · refine compile_arguments hm hs (fun t ht => hnew t ?_) source
    simp [htokens, ht]
  · rwa [hlistings]
  · intro found hfound
    obtain ⟨q, hq, rfl⟩ := List.mem_map.1 hfound
    exact List.Subset.trans ((Phrases.part_of_mem_arguments hq).inside hm hs).2.2 hentries
  · intro hdistinct
    rw [hlistings]
    subst hp hcompiled
    exact Phrase.args?_attachAll sheet hpm hps hdistinct _ hself
  · intro other before' after' source' c' hc'
    -- There is only one partner of the bracket, so it is the same phrases that are found there.
    obtain ⟨o', inner', cl', after'', heq, -, hcl', hm', hs', -, hself'⟩ :=
      attachesAt_of_compile hc' rfl hname
    rw [List.cons.injEq] at heq
    obtain ⟨htokens', -, -⟩ :=
      Balanced.partner_unique heq.2 hm.balanced hm'.balanced hcl hcl'
    rwa [compiledPhrase_unique hm hm' hs hs' htokens', hlistings]

/-- In the prefix listing of `2^max(1+2,sqrt(9))*3`, the arguments of `max` are `+ 1 2` and
`sqrt(9)`. -/
theorem arguments_alone_nested : ∃ (inner : List Token) (alone : List Compiled),
    (arguments inner).map (standard.compile .empty · Mode.pn.name none) = alone.map .ok ∧
      alone.map Compiled.listing
        = [[⟨.operator, "+", 7, 5⟩, ⟨.number, "1", 6, 4⟩, ⟨.number, "2", 8, 6⟩],
          [⟨.call, "sqrt", 10, 8⟩]] := by
  let rest : List Token := [⟨.openBracket, "(", 5, 3⟩, ⟨.number, "1", 6, 4⟩,
    ⟨.operator, "+", 7, 5⟩, ⟨.number, "2", 8, 6⟩, ⟨.separator, ",", 9, 7⟩, ⟨.call, "sqrt", 10, 8⟩,
    ⟨.openBracket, "(", 14, 9⟩, ⟨.number, "9", 15, 10⟩, ⟨.closeBracket, ")", 16, 11⟩,
    ⟨.closeBracket, ")", 17, 12⟩, ⟨.operator, "*", 18, 13⟩, ⟨.number, "3", 19, 14⟩]
  let tokens : List Token :=
    [⟨.number, "2", 0, 0⟩, ⟨.operator, "^", 1, 1⟩] ++ ⟨.call, "max", 2, 2⟩ :: rest
  obtain ⟨c, hc⟩ : ∃ c, standard.compile .empty tokens Mode.pn.name none = .ok c := ⟨_, rfl⟩
  have hargs : (standard.compile .empty tokens Mode.pn.name none).toOption.map
      (fun c => (Sheet.empty.attachAll c.attached).args? 2)
        = some (some [[⟨.operator, "+", 7, 5⟩, ⟨.number, "1", 6, 4⟩, ⟨.number, "2", 8, 6⟩],
          [⟨.call, "sqrt", 10, 8⟩]]) := by decide +kernel
  obtain ⟨-, inner, -, -, alone, -, halone, -, -, hfound, -⟩ := arguments_alone hc rfl rfl
  rw [hc, Except.toOption, Option.map_some, hfound (by decide)] at hargs
  exact ⟨inner, alone, halone none, Option.some.inj (Option.some.inj hargs)⟩

end Engine

end Polish
