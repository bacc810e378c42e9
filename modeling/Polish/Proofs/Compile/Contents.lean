import Polish.Proofs.Compile.Acceptance

/-!
# What listings and arguments are made of

A scan moves tokens and makes up none.  So the listing of a phrase and the arguments that are
attached to the calls in it are made of the tokens of the phrase, and what a compilation gives is
made of the tokens that it was given: `Engine.compile_subset`.

## How the proof goes

Everything is read off the phrase.  The listing of a yard is a permutation of the tokens of its
pieces, the pieces of a phrase are tokens of the phrase or calls whose arguments are in it, and so
on down the phrase; each lemma is an inclusion of lists and follows the recursion of the function
that it is about.  The last step is `Job.run_ok_iff`, by which a compilation gives nothing else.
-/

set_option autoImplicit false

namespace Polish

/-- The tokens of an argument are among those between the brackets. -/
theorem Phrase.Part.subset {p : Phrase} {ps : Phrases} (h : p.Part ps) : p.tokens ⊆ ps.tokens := by
  induction h with
  | last => exact List.Subset.refl _
  | first => exact List.subset_append_left _ _
  | later _ _ _ ih =>
    exact List.Subset.trans ih (List.subset_append_of_subset_right _ (List.subset_cons_self _ _))

section

variable (m : Mode) (operators : Table Operator)

mutual

theorem Phrase.pieces_subset : (p : Phrase) → ∀ q ∈ p.pieces m operators, q.tokens ⊆ p.tokens
  | .nil, _, hq => absurd hq List.not_mem_nil
  | .plain t rest, q, hq => by
    rw [Phrase.tokens]
    rcases List.mem_cons.1 hq with rfl | hq
    · rw [Piece.tokens_ofToken]
      simp
    · exact List.subset_cons_of_subset t (rest.pieces_subset q hq)
  | .bracket none o inner c rest, q, hq => by
    rw [Phrase.tokens]
    rcases List.mem_cons.1 hq with rfl | hq
    · intro t ht
      obtain ⟨piece, hpiece, ht⟩ :=
        List.mem_flatMap.1 ((Yard.listing_perm m operators _).mem_iff.1 ht)
      have hinner := inner.headPieces_subset piece hpiece ht
      simp [hinner]
    · intro t ht
      simp [rest.pieces_subset q hq ht]
  | .bracket (some f) o inner c rest, q, hq => by
    rw [Phrase.tokens]
    rcases List.mem_cons.1 hq with rfl | hq
    · simp [Piece.tokens]
    · intro t ht
      simp [rest.pieces_subset q hq ht]

theorem Phrases.headPieces_subset : (ps : Phrases) → ∀ q ∈ ps.headPieces m operators,
    q.tokens ⊆ ps.tokens
  | .last phrase, q, hq => phrase.pieces_subset q hq
  | .more phrase _ _, q, hq => by
    rw [Phrases.tokens]
    exact List.subset_append_of_subset_left _ (phrase.pieces_subset q hq)

end

theorem Phrase.listing_subset (p : Phrase) : p.listing m operators ⊆ p.tokens := by
  intro t ht
  obtain ⟨q, hq, ht⟩ := List.mem_flatMap.1 ((Yard.listing_perm m operators _).mem_iff.1 ht)
  exact p.pieces_subset m operators q hq ht

mutual

theorem Phrase.entries_subset : (p : Phrase) → ∀ entry ∈ p.entries m operators,
    ∀ list ∈ entry.2, list ⊆ p.tokens
  | .nil, _, he => absurd he List.not_mem_nil
  | .plain t rest, entry, he => fun list hlist => by
    rw [Phrase.tokens]
    exact List.subset_cons_of_subset t (rest.entries_subset entry he list hlist)
  | .bracket name o inner c rest, entry, he => fun list hlist => by
    have hinner (h : list ⊆ inner.tokens) : list ⊆ (Phrase.bracket name o inner c rest).tokens := by
      intro t ht
      simp [Phrase.tokens, h ht]
    rw [Phrase.entries, Mode.mem_join, List.mem_append] at he
    rcases he with (he | he) | he
    · exact hinner (inner.entries_subset entry he list hlist)
    · obtain ⟨f, -, rfl⟩ := List.mem_map.1 he
      obtain ⟨p, hp, rfl⟩ := List.mem_map.1 hlist
      have hargument := (Phrases.part_of_mem_arguments hp).subset
      exact hinner (List.Subset.trans (p.listing_subset m operators) hargument)
    · intro t ht
      simp [Phrase.tokens, rest.entries_subset entry he list hlist ht]

theorem Phrases.entries_subset : (ps : Phrases) → ∀ entry ∈ ps.entries m operators,
    ∀ list ∈ entry.2, list ⊆ ps.tokens
  | .last phrase, entry, he => phrase.entries_subset entry he
  | .more phrase sep rest, entry, he => fun list hlist => by
    rw [Phrases.tokens]
    rw [Phrases.entries, Mode.mem_join] at he
    rcases he with he | he
    · exact List.subset_append_of_subset_left _ (phrase.entries_subset entry he list hlist)
    · exact List.subset_append_of_subset_right _
        (List.subset_cons_of_subset sep (rest.entries_subset entry he list hlist))

end

end

namespace Engine

/-- A compilation makes listings and arguments of its tokens only. -/
theorem compile_subset {e : Engine} {sheet : Sheet} {tokens : List Token} {mode : String}
    {source : Option String} {c : Compile.Compiled}
    (h : e.compile sheet tokens mode source = .ok c) :
    c.listing ⊆ tokens ∧ ∀ entry ∈ c.attached, ∀ list ∈ entry.2, list ⊆ tokens := by
  obtain ⟨job, rfl, hrun⟩ := compile_ok h
  obtain ⟨-, p, hp, -, -, rfl⟩ := Compile.Job.run_ok_iff.1 hrun
  rw [← show p.tokens = job.tokens from hp]
  exact ⟨p.listing_subset _ _, p.entries_subset _ _⟩

end Engine

end Polish
