import Polish.Sheet

/-!
# What is found on a sheet

`Sheet.attachAll` writes entries on a sheet one after another.  For a token that is among them one
of its entries is found afterwards, the only one if no handle occurs twice; for any other token,
what was there before.
-/

set_option autoImplicit false

namespace Polish.Sheet

variable {sheet : Sheet} {entries : List (Nat × List (List Token))} {handle : Nat}
  {args : List (List Token)}

theorem args?_attachAll_of_not_mem (h : handle ∉ entries.map Prod.fst) :
    (sheet.attachAll entries).args? handle = sheet.args? handle := by
  induction entries generalizing sheet with
  | nil => rfl
  | cons entry rest ih =>
    rw [List.map_cons, List.mem_cons, not_or] at h
    rw [attachAll, List.foldl_cons, ← attachAll, ih h.2, args?_attach, if_neg (Ne.symm h.1)]

/-- What was attached to different tokens can all be found. -/
theorem args?_attachAll (hdistinct : (entries.map Prod.fst).Nodup)
    (h : (handle, args) ∈ entries) : (sheet.attachAll entries).args? handle = some args := by
  induction entries generalizing sheet with
  | nil => cases h
  | cons entry rest ih =>
    rw [List.map_cons, List.nodup_cons] at hdistinct
    rw [attachAll, List.foldl_cons, ← attachAll]
    rcases List.mem_cons.1 h with rfl | h
    · rw [args?_attachAll_of_not_mem hdistinct.1, args?_attach, if_pos rfl]
    · exact ih hdistinct.2 h

/-- What is found on a sheet has been attached. -/
theorem mem_of_args?_attachAll (h : (sheet.attachAll entries).args? handle = some args) :
    (handle, args) ∈ entries ∨ sheet.args? handle = some args := by
  induction entries generalizing sheet with
  | nil => exact .inr h
  | cons entry rest ih =>
    rw [attachAll, List.foldl_cons, ← attachAll] at h
    rcases ih h with hrest | hfirst
    · exact .inl (List.mem_cons_of_mem _ hrest)
    · rw [args?_attach] at hfirst
      split at hfirst
      · next heq =>
        obtain rfl := Option.some.inj hfirst
        exact .inl (heq ▸ List.mem_cons_self)
      · exact .inr hfirst

/-- What has been attached once is there. -/
theorem isSome_args?_attachAll : ((sheet.attachAll entries).args? handle).isSome ↔
    handle ∈ entries.map Prod.fst ∨ (sheet.args? handle).isSome := by
  induction entries generalizing sheet with
  | nil => simp [attachAll]
  | cons entry rest ih =>
    rw [attachAll, List.foldl_cons, ← attachAll, ih, args?_attach, List.map_cons, List.mem_cons]
    by_cases h : entry.1 = handle
    · simp [h]
    · simp [h, Ne.symm h]

end Polish.Sheet
