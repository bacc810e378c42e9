/-!
# Tables in order of first entry

A `Table` maps names to values and remembers the order in which the names first came in.  Giving
a name a new value leaves it where it stands; erasing a name closes the gap.  The grammar keeps
its rules and next sets in tables, and so do the registries their operators, functions and
constants: the order is what error messages and rebuilt patterns show.

No name occurs twice, and that is part of the type.  The laws are stated through the two views
`find?` (what a name stands for) and `keys` (which names there are, in order):

* `find?_insert` — an insertion changes the answer for its own name only;
* `keys_insert` — it appends a new name and leaves the names alone otherwise;
* `find?_erase` — an erased name is gone and every other one is untouched.
-/

set_option autoImplicit false

namespace Polish

universe u

/-- Names with their values, each name once, in the order in which the names first came in. -/
structure Table (α : Type u) where
  entries : List (String × α)
  distinct : (entries.map Prod.fst).Nodup

namespace Table

variable {α : Type u}

/-! ## Views -/

/-- The names of the table, oldest first. -/
def keys (t : Table α) : List String := t.entries.map Prod.fst

/-- The values of the table in the order of their names. -/
def values (t : Table α) : List α := t.entries.map Prod.snd

/-- What a name stands for in a list of entries. -/
def lookup (name : String) : List (String × α) → Option α
  | [] => none
  | (key, value) :: rest => if key = name then some value else lookup name rest

/-- What a name stands for, if anything. -/
def find? (t : Table α) (name : String) : Option α := lookup name t.entries

def contains (t : Table α) (name : String) : Bool := (t.find? name).isSome

def size (t : Table α) : Nat := t.entries.length

theorem lookup_eq_none_iff {name : String} {entries : List (String × α)} :
    lookup name entries = none ↔ name ∉ entries.map Prod.fst := by
  induction entries with
  | nil => simp [lookup]
  | cons entry rest ih =>
    obtain ⟨key, value⟩ := entry
    by_cases h : key = name
    · simp [lookup, h]
    · simp [lookup, h, ih, Ne.symm h]

theorem find?_eq_none_iff {t : Table α} {name : String} : t.find? name = none ↔ name ∉ t.keys :=
  lookup_eq_none_iff

/-! ## The empty table -/

def empty : Table α := ⟨[], by simp⟩

@[simp] theorem find?_empty (name : String) : (empty : Table α).find? name = none := rfl

@[simp] theorem keys_empty : (empty : Table α).keys = [] := rfl

/-! ## Insertion -/

/-- Gives a name its value in a list of entries: in place if the name is there, else at the end. -/
def put (name : String) (value : α) : List (String × α) → List (String × α)
  | [] => [(name, value)]
  | (key, old) :: rest =>
    if key = name then (key, value) :: rest else (key, old) :: put name value rest

theorem map_fst_put (name : String) (value : α) (entries : List (String × α)) :
    (put name value entries).map Prod.fst
      = if name ∈ entries.map Prod.fst then entries.map Prod.fst
        else entries.map Prod.fst ++ [name] := by
  induction entries with
  | nil => simp [put]
  | cons entry rest ih =>
    obtain ⟨key, old⟩ := entry
    by_cases h : key = name
    · simp [put, h]
    · by_cases hr : name ∈ rest.map Prod.fst <;> simp_all [put, Ne.symm h]

theorem lookup_put (name other : String) (value : α) (entries : List (String × α)) :
    lookup other (put name value entries)
      = if name = other then some value else lookup other entries := by
  induction entries with
  | nil => simp [put, lookup]
  | cons entry rest ih =>
    obtain ⟨key, old⟩ := entry
    by_cases h : key = name
    · subst h
      by_cases ho : key = other <;> simp [put, lookup, ho]
    · rw [put, if_neg h, lookup, lookup, ih]
      by_cases ho : key = other
      · rw [if_pos ho, if_pos ho, if_neg fun hn => h (ho.trans hn.symm)]
      · rw [if_neg ho, if_neg ho]

/-- Gives a name its value: in place if the name is there, else at the end. -/
def insert (t : Table α) (name : String) (value : α) : Table α where
  entries := put name value t.entries
  distinct := by
    rw [map_fst_put]
    split
    · exact t.distinct
    · next h =>
      rw [List.nodup_append]
      refine ⟨t.distinct, by simp, ?_⟩
      intro a ha b hb hab
      rw [List.mem_singleton] at hb
      exact h (hb ▸ hab ▸ ha)

theorem find?_insert (t : Table α) (name other : String) (value : α) :
    (t.insert name value).find? other = if name = other then some value else t.find? other :=
  lookup_put ..

theorem keys_insert (t : Table α) (name : String) (value : α) :
    (t.insert name value).keys = if name ∈ t.keys then t.keys else t.keys ++ [name] :=
  map_fst_put ..

/-- The table that a list of entries fills when they come in one after another. -/
def ofList (entries : List (String × α)) : Table α :=
  entries.foldl (fun t entry => t.insert entry.1 entry.2) empty

/-! ## Erasure -/

/-- Takes a name out of the table. -/
def erase (t : Table α) (name : String) : Table α where
  entries := t.entries.filter (fun entry => entry.1 != name)
  distinct := t.distinct.sublist (List.filter_sublist.map _)

theorem lookup_filter_ne (name other : String) (entries : List (String × α)) :
    lookup other (entries.filter (fun entry => entry.1 != name))
      = if name = other then none else lookup other entries := by
  induction entries with
  | nil => simp [lookup]
  | cons entry rest ih =>
    obtain ⟨key, value⟩ := entry
    by_cases h : key = name
    · subst h
      by_cases ho : key = other <;> simp_all [lookup]
    · by_cases ho : key = other
      · have : name ≠ other := fun hn => h (ho.trans hn.symm)
        simp_all [lookup]
      · simp_all [lookup]

theorem find?_erase (t : Table α) (name other : String) :
    (t.erase name).find? other = if name = other then none else t.find? other :=
  lookup_filter_ne ..

/-! ## Selection -/

/-- The entries of the given names, in the order of that list; unknown names are passed over. -/
def select (t : Table α) (names : List String) : Table α :=
  ofList (names.filterMap fun name => (t.find? name).map fun value => (name, value))

end Table

end Polish
