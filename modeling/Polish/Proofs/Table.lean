import Polish.Table

/-!
# Tables and their entries

A name stands for a value exactly if the two are an entry, `Table.find?_eq_some_iff`.  Of two values
given to a name only the later one counts, and giving it the value that it has changes nothing.
`Table.fill` puts in many entries, in whatever order, and `Table.mapValues` changes all values and
leaves the names as they are.
-/

set_option autoImplicit false

namespace Polish

namespace Table

variable {α : Type}

theorem find?_eq_some_iff {t : Table α} {name : String} {value : α} :
    t.find? name = some value ↔ (name, value) ∈ t.entries := by
  have key (entries : List (String × α)) (h : (entries.map Prod.fst).Nodup) :
      lookup name entries = some value ↔ (name, value) ∈ entries := by
    induction entries with
    | nil => simp [lookup]
    | cons entry rest ih =>
      obtain ⟨other, old⟩ := entry
      rw [List.map_cons, List.nodup_cons] at h
      rw [lookup, List.mem_cons, Prod.mk.injEq, ← ih h.2]
      by_cases heq : other = name
      · subst heq
        have hnone : lookup other rest = none := lookup_eq_none_iff.2 h.1
        simp [hnone, eq_comm]
      · simp [heq, Ne.symm heq]
  exact key t.entries t.distinct

theorem mem_keys_iff {t : Table α} {name : String} : name ∈ t.keys ↔ t.find? name ≠ none := by
  rw [Ne, find?_eq_none_iff, Classical.not_not]

variable (t : Table α) (name : String) (old value : α)

theorem ext_entries {t u : Table α} (h : t.entries = u.entries) : t = u := by
  cases t
  cases u
  simpa using h

theorem put_put (entries : List (String × α)) :
    put name value (put name old entries) = put name value entries := by
  induction entries with
  | nil => simp [put]
  | cons entry rest ih =>
    by_cases h : entry.1 = name
    · simp [put, h]
    · simp [put, h, ih]

theorem insert_insert : (t.insert name old).insert name value = t.insert name value :=
  ext_entries (put_put ..)

theorem put_lookup {name : String} {value : α} {entries : List (String × α)}
    (h : lookup name entries = some value) : put name value entries = entries := by
  induction entries with
  | nil => cases h
  | cons entry rest ih =>
    rw [lookup] at h
    split at h
    · next heq =>
      subst heq
      rw [put, if_pos rfl, ← Option.some.inj h]
    · next hne => simp [put, hne, ih h]

theorem insert_find? {t : Table α} {name : String} {value : α} (h : t.find? name = some value) :
    t.insert name value = t :=
  ext_entries (put_lookup h)

theorem find?_perm {t u : Table α} (h : t.entries.Perm u.entries) (name : String) :
    t.find? name = u.find? name := by
  refine Option.ext fun value => ?_
  rw [find?_eq_some_iff, find?_eq_some_iff, h.mem_iff]

/-! ## Many entries -/

theorem mem_put {name : String} {value : α} {entries : List (String × α)} {entry : String × α}
    (h : entry ∈ put name value entries) : entry = (name, value) ∨ entry ∈ entries := by
  induction entries with
  | nil => exact .inl (List.mem_singleton.1 h)
  | cons first rest ih =>
    rw [put] at h
    split at h
    · next heq =>
      rcases List.mem_cons.1 h with rfl | h
      · exact .inl (Prod.ext heq rfl)
      · exact .inr (List.mem_cons_of_mem first h)
    · rcases List.mem_cons.1 h with rfl | h
      · exact .inr List.mem_cons_self
      · exact (ih h).imp_right (List.mem_cons_of_mem first)

/-- A table that a list of entries fills has no others. -/
theorem mem_of_mem_ofList {entries : List (String × α)} {entry : String × α}
    (h : entry ∈ (ofList entries).entries) : entry ∈ entries := by
  have key (entries : List (String × α)) (t : Table α)
      (h : entry ∈ (entries.foldl (fun t entry => t.insert entry.1 entry.2) t).entries) :
      entry ∈ entries ∨ entry ∈ t.entries := by
    induction entries generalizing t with
    | nil => exact .inr h
    | cons first rest ih =>
      rcases ih _ h with hrest | hfirst
      · exact .inl (List.mem_cons_of_mem first hrest)
      · rcases mem_put hfirst with rfl | ht
        · exact .inl List.mem_cons_self
        · exact .inr ht
  rcases key entries empty h with hmem | hempty
  · exact hmem
  · cases hempty

section

variable {β : Type} (f : α → Option β)

/-- Puts in one entry after another, as far as they stand for a value. -/
def fill (t : Table β) (entries : List (String × α)) : Table β :=
  entries.foldl (fun t entry => match f entry.2 with
    | some value => t.insert entry.1 value
    | none => t) t

/-- An entry that has been put in counts before what was in the table. -/
theorem find?_fill {entries : List (String × α)} (hdistinct : (entries.map Prod.fst).Nodup)
    (t : Table β) (name : String) :
    (t.fill f entries).find? name = ((lookup name entries).bind f).or (t.find? name) := by
  induction entries generalizing t with
  | nil => rfl
  | cons entry rest ih =>
    obtain ⟨key, a⟩ := entry
    rw [List.map_cons, List.nodup_cons] at hdistinct
    rw [fill, List.foldl_cons, ← fill, ih hdistinct.2, lookup]
    by_cases heq : key = name
    · subst heq
      have hrest : lookup key rest = none := lookup_eq_none_iff.2 hdistinct.1
      rw [if_pos rfl, hrest]
      cases hf : f a with
      | some value => simp [find?_insert, hf]
      | none => simp [hf]
    · rw [if_neg heq]
      cases f a with
      | some value => simp [find?_insert, heq]
      | none => rfl

/-- It does not matter in which order the entries of a table are put in. -/
theorem find?_fill_perm {u u' : Table α} (h : u.entries.Perm u'.entries) (t : Table β)
    (name : String) : (t.fill f u.entries).find? name = (t.fill f u'.entries).find? name := by
  have hfind : lookup name u.entries = lookup name u'.entries := find?_perm h name
  rw [find?_fill f u.distinct, find?_fill f u'.distinct, hfind]

end

/-- Names that are taken out one after another are gone. -/
theorem find?_foldl_erase (names : List String) (t : Table α) (name : String) :
    (names.foldl erase t).find? name = if name ∈ names then none else t.find? name := by
  induction names generalizing t with
  | nil => rfl
  | cons first rest ih =>
    rw [List.foldl_cons, ih, find?_erase]
    by_cases hrest : name ∈ rest
    · simp [hrest]
    · by_cases heq : first = name
      · simp [heq]
      · simp [hrest, heq, Ne.symm heq]

/-! ## Other values for all names -/

section

variable {β : Type} (f : α → β) (t : Table α) (name : String)

/-- The table with all values changed. -/
def mapValues : Table β where
  entries := t.entries.map fun entry => (entry.1, f entry.2)
  distinct := by
    rw [List.map_map]
    exact t.distinct

@[simp] theorem find?_mapValues : (t.mapValues f).find? name = (t.find? name).map f := by
  have key (entries : List (String × α)) :
      lookup name (entries.map fun entry => (entry.1, f entry.2))
        = (lookup name entries).map f := by
    induction entries with
    | nil => rfl
    | cons entry rest ih =>
      rw [List.map_cons, lookup, lookup, ih, apply_ite (Option.map f)]
      rfl
  exact key t.entries

@[simp] theorem contains_mapValues : (t.mapValues f).contains name = t.contains name := by
  rw [contains, contains, find?_mapValues, Option.isSome_map]

end

end Table

end Polish
