import Polish.Proofs.Table
import Polish.Registry

/-!
# Functions that draw nothing

Of the functions that a new engine knows only `random` draws, and none of its operators does.
`Registries.drawsNothing_standard` says so by name, in the form in which it is needed of the tokens
of a text.
-/

set_option autoImplicit false

namespace Polish

/-! ## The tables -/

/-- If the entries of one name, among those that fill a table, draw nothing, then what the table has
under that name does not. -/
theorem Table.drawsNothing_ofList {entries : List (String × Function)} {name : String}
    (hentries : ∀ entry ∈ entries, entry.1 = name → entry.2.DrawsNothing) {function : Function}
    (h : (ofList entries).find? name = some function) : function.DrawsNothing :=
  hentries _ (mem_of_mem_ofList (find?_eq_some_iff.1 h)) rfl

/-- The binary functions draw nothing. -/
theorem Binary.drawsNothing {name : String} {function : Function}
    (h : table.find? name = some function) : function.DrawsNothing := by
  refine Table.drawsNothing_ofList ?_ h
  -- Each entry is a function of two arguments, which does not look at what comes up.
  repeat' refine List.forall_mem_cons.2 ⟨fun _ _ _ _ => rfl, ?_⟩
  exact List.forall_mem_nil _

/-- Of the standard functions only `random` draws. -/
theorem Standard.drawsNothing {name : String} {function : Function} (hne : name ≠ "random")
    (h : table.find? name = some function) : function.DrawsNothing := by
  refine Table.drawsNothing_ofList ?_ h
  repeat' refine List.forall_mem_cons.2 ⟨fun _ _ _ _ => rfl, ?_⟩
  refine List.forall_mem_cons.2 ⟨fun heq => absurd heq.symm hne, ?_⟩
  repeat' refine List.forall_mem_cons.2 ⟨fun _ _ _ _ => rfl, ?_⟩
  exact List.forall_mem_nil _

namespace Registries

/-- Neither an operator nor a function of that name draws. -/
structure DrawsNothing (r : Registries) (name : String) : Prop where
  operators : ∀ operator, r.operators.find? name = some operator → operator.function.DrawsNothing
  functions : ∀ function, r.functions.find? name = some function → function.DrawsNothing

/-- **In a new engine only the name `random` draws.** -/
theorem drawsNothing_standard {name : String} (hne : name ≠ "random") :
    standard.DrawsNothing name where
  operators operator h := by
    have hmem := Table.mem_of_mem_ofList (Table.find?_eq_some_iff.1 h)
    obtain ⟨level, -, hsymbol⟩ := List.mem_flatMap.1 hmem
    obtain ⟨entry, -, hentry⟩ := List.mem_filterMap.1 hsymbol
    obtain ⟨function, hfunction, heq⟩ := Option.map_eq_some_iff.1 hentry
    obtain ⟨-, rfl⟩ := Prod.mk.inj heq
    exact Binary.drawsNothing hfunction
  functions _ h := Standard.drawsNothing hne h

end Registries

end Polish
