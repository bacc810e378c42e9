import Polish.Proofs.Compile.Acceptance
import Polish.Proofs.Sheet
import Polish.Proofs.Tree.Listing

/-!
# What expressions compile to

`Engine.compile_expression` — every expression over registered operators compiles, in both
notations, to the listing of a tree, with the arguments of its calls on the sheet.  Which tree that
is depends on the notation only as far as the table of operators lets the two scans decide
differently, and `Engine.compile_listing` says that a uniform table does not let them.

Arguments are found by handles, so the tokens have to have different ones.

## How the proof goes

An expression is a phrase, and a sound one (`Expression.sound`), so that it compiles is
`Job.run_ok_iff`, and what it compiles to is the listing of a yard.  That this is the listing of the
tree of the expression is `Expression.listing_toPhrase`.  What is added here is that the arguments
can be found on the sheet afterwards: each call of a phrase has one entry (`Phrase.entries_calls`),
the calls have different handles, and so looking up a handle gives the entry of its call.
-/

set_option autoImplicit false

namespace Polish

/-! ## Attached arguments -/

section

variable {m : Mode} {operators : Table Operator} {limit : Int}

mutual

/-- Arguments are attached to the calls of the phrase, once to each. -/
theorem Phrase.entries_calls : (p : Phrase) → p.Matched → p.Sound operators limit →
    ((p.entries m operators).map Prod.fst).Perm
      ((p.tokens.filter (·.kind = .call)).map Token.handle)
  | .nil, _, _ => .refl _
  | .plain t rest, ⟨_, _, _, hr⟩, ⟨hk, hsr⟩ => by
    have hcall : t.kind ≠ .call := by
      rintro hcall
      rw [hcall] at hk
      rcases hk with hk | ⟨hk, -⟩ <;> cases hk
    rw [Phrase.tokens, List.filter_cons_of_neg (by simpa using hcall)]
    exact rest.entries_calls hr hsr
  | .bracket none o inner c rest, ⟨_, ho, hi, hc, hr⟩, ⟨_, hsi, hsr⟩ => by
    have hparts := (inner.entries_calls hi hsi).append (rest.entries_calls hr hsr)
    refine ((m.join_perm _ _).map Prod.fst).trans ?_
    simpa [Phrase.tokens, List.filter_cons, ho, hc] using hparts
  | .bracket (some f) o inner c rest, ⟨hf, ho, hi, hc, hr⟩, ⟨_, hsi, hsr⟩ => by
    have hk : f.kind = .call := hf f rfl
    have hparts := ((inner.entries_calls hi hsi).append (rest.entries_calls hr hsr)).cons f.handle
    refine ((m.join_perm _ _).map Prod.fst).trans ?_
    rw [List.map_append, List.map_append, List.append_assoc]
    refine List.perm_middle.trans ?_
    simpa [Phrase.tokens, List.filter_cons, hk, ho, hc] using hparts

theorem Phrases.entries_calls : (ps : Phrases) → ps.Matched → ps.Sound operators limit →
    ((ps.entries m operators).map Prod.fst).Perm
      ((ps.tokens.filter (·.kind = .call)).map Token.handle)
  | .last p, hm, hs => p.entries_calls hm hs
  | .more p s rest, ⟨hm, hk, hr⟩, ⟨hs, hsr⟩ => by
    have hparts := (p.entries_calls hm hs).append (rest.entries_calls hr hsr)
    refine ((m.join_perm _ _).map Prod.fst).trans ?_
    simpa [Phrases.tokens, List.filter_cons, hk] using hparts

end

/-- **What is attached in a scan can be found afterwards**, if the calls have different handles. -/
theorem Phrase.args?_attachAll {p : Phrase} (sheet : Sheet) (hm : p.Matched)
    (hs : p.Sound operators limit)
    (hcalls : ((p.tokens.filter (·.kind = .call)).map Token.handle).Nodup) :
    ∀ entry ∈ p.entries m operators,
      (sheet.attachAll (p.entries m operators)).args? entry.1 = some entry.2 :=
  fun _ he => Sheet.args?_attachAll ((p.entries_calls hm hs).nodup_iff.2 hcalls) he

end

/-- If all tokens have different handles, the calls have. -/
theorem Token.nodup_calls {tokens : List Token} (h : (tokens.map Token.handle).Nodup) :
    ((tokens.filter (·.kind = .call)).map Token.handle).Nodup :=
  h.sublist (List.filter_sublist.map _)

/-- The arguments attached in the scan of an expression are those of its calls. -/
theorem Expression.attached {operators : Table Operator} {limit : Int} {m : Mode} {x : Expression}
    (sheet : Sheet) (hp : x.Proper) (hv : x.Valid operators limit)
    (hdistinct : (x.tokens.map Token.handle).Nodup) :
    (x.tree (m.leftFirst operators)).Attached m
      (sheet.attachAll (x.toPhrase.entries m operators)) := by
  rw [← x.tokens_toPhrase] at hdistinct
  intro c hc
  have hentry : Tree.entry m c ∈ x.toPhrase.entries m operators :=
    (x.entries_perm hp hv).mem_iff.2 (List.mem_map_of_mem hc)
  exact Phrase.args?_attachAll sheet hp.matched (x.sound hp hv) (Token.nodup_calls hdistinct)
    _ hentry

/-! ## Compilations -/

/-- **A compilation attaches arguments to each call of its tokens once**, and to nothing else. -/
theorem Compile.Job.attached_calls {job : Job} {now : Surroundings} {c : Compiled}
    (h : job.run.eager now = .ok c) : (c.attached.map Prod.fst).Perm
      ((job.tokens.filter (·.kind = .call)).map Token.handle) := by
  obtain ⟨-, p, hp, hmatched, hsound, rfl⟩ := run_ok_iff.1 h
  rw [← hp]
  exact p.entries_calls hmatched hsound

namespace Engine

variable {e : Engine} {sheet : Sheet} {x : Expression}

/-- **An expression compiles to the listing of the tree that the scan has of it**, and the arguments
of its calls are attached. -/
theorem compile_expression (m : Mode) (source : Option String) (hp : x.Proper)
    (hv : x.Valid e.registries.operators e.limits.functionArgs)
    (hnew : ∀ t ∈ x.tokens, t.kind = .call → sheet.args? t.handle = none)
    (hdistinct : (x.tokens.map Token.handle).Nodup) :
    ∃ c, e.compile sheet x.tokens m.name source = .ok c ∧
      c.listing = (x.tree (m.leftFirst e.registries.operators)).listing m ∧
      (x.tree (m.leftFirst e.registries.operators)).Attached m (sheet.attachAll c.attached) :=
  ⟨_, compile_ok_iff.2 ⟨hnew, x.toPhrase, x.tokens_toPhrase, hp.matched, x.sound hp hv, rfl⟩,
    Expression.listing_toPhrase hp hv, Expression.attached sheet hp hv hdistinct⟩

/-- **Under a uniform table both notations list the same tree**, the one that levels and grouping
give the expression: one listing has its operators after their operands, and the other one before
them. -/
theorem compile_listing (m : Mode) (source : Option String)
    (huniform : e.registries.operators.Uniform) (hp : x.Proper)
    (hv : x.Valid e.registries.operators e.limits.functionArgs)
    (hnew : ∀ t ∈ x.tokens, t.kind = .call → sheet.args? t.handle = none)
    (hdistinct : (x.tokens.map Token.handle).Nodup) :
    (x.tree e.registries.operators.leftFirst).Grouped e.registries.operators.leftFirst ∧
      ∃ c, e.compile sheet x.tokens m.name source = .ok c ∧
        c.listing = (x.tree e.registries.operators.leftFirst).listing m ∧
        (x.tree e.registries.operators.leftFirst).Attached m (sheet.attachAll c.attached) := by
  refine ⟨x.grouped_table huniform, ?_⟩
  rw [← Mode.leftFirst_eq huniform m]
  exact compile_expression m source hp hv hnew hdistinct

/-- In `1+2*3` the product comes before the sum. -/
theorem compile_listing_product :
    ∃ c, standard.compile .empty [⟨.number, "1", 0, 0⟩, ⟨.operator, "+", 1, 1⟩,
        ⟨.number, "2", 2, 2⟩, ⟨.operator, "*", 3, 3⟩, ⟨.number, "3", 4, 4⟩] "rpn" none = .ok c ∧
      c.listing.map Token.text = ["1", "2", "3", "*", "+"] := by
  let x : Expression := .chain (.value ⟨.number, "1", 0, 0⟩) ⟨.operator, "+", 1, 1⟩
    (.chain (.value ⟨.number, "2", 2, 2⟩) ⟨.operator, "*", 3, 3⟩
      (.single (.value ⟨.number, "3", 4, 4⟩)))
  have hproper : x.Proper := ⟨rfl, rfl, rfl, rfl, rfl⟩
  have hvalid : x.Valid standard.registries.operators standard.limits.functionArgs :=
    ⟨trivial, by decide, trivial, by decide, trivial⟩
  have hnew : ∀ t ∈ x.tokens, t.kind = .call → Sheet.empty.args? t.handle = none :=
    fun _ _ _ => rfl
  have h := compile_listing .rpn none Table.uniform_standard hproper hvalid hnew (by decide)
  obtain ⟨-, c, hc, hlisting, -⟩ := h
  exact ⟨c, hc, by rw [hlisting]; decide⟩

end Engine

end Polish
