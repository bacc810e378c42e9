/-!
# The two notations

An expression can be listed with each operator after its operands or before them, which is
`NotationMode`.  Either listing is built by adding tokens at one end; `Mode.inOrder` turns a list
that grew this way, newest first, into reading order.  The first notation is built from left to
right, so its newest token is the last; the second one from right to left, so its newest token is
the first.

`Mode.scanOrder` is the order in which a compiler or an evaluator in that notation goes through a
list, and `Mode.join` puts together what came of two pieces, given in the order of the scan.  All
that distinguishes the notations in this library is said through these three, and the lemmas here
are what their users need to know of them: that nothing is lost, and that the three undo each other.
-/

set_option autoImplicit false

namespace Polish

inductive Mode where
  /-- Operators after their operands. -/
  | rpn
  /-- Operators before their operands. -/
  | pn
deriving Repr, DecidableEq

namespace Mode

def name : Mode → String
  | rpn => "rpn"
  | pn => "pn"

def ofName? (name : String) : Option Mode :=
  if name = "rpn" then some rpn else if name = "pn" then some pn else none

theorem ofName?_name (m : Mode) : ofName? m.name = some m := by cases m <;> rfl

theorem name_of_ofName? {name : String} {m : Mode} (h : ofName? name = some m) : m.name = name := by
  unfold ofName? at h
  split at h
  · next heq =>
    obtain rfl := Option.some.inj h
    exact heq.symm
  · split at h
    · next heq =>
      obtain rfl := Option.some.inj h
      exact heq.symm
    · cases h

/-- A list that grew newest first, in reading order. -/
def inOrder {α : Type} (m : Mode) (newestFirst : List α) : List α :=
  match m with
  | rpn => newestFirst.reverse
  | pn => newestFirst

/-- A list in reading order, in the order in which this notation scans it. -/
def scanOrder {α : Type} (m : Mode) (xs : List α) : List α :=
  match m with
  | rpn => xs
  | pn => xs.reverse

theorem inOrder_inOrder {α : Type} (m : Mode) (xs : List α) : m.inOrder (m.inOrder xs) = xs := by
  cases m
  · exact xs.reverse_reverse
  · rfl

theorem inOrder_eq_nil_iff {α : Type} {m : Mode} {xs : List α} : m.inOrder xs = [] ↔ xs = [] := by
  cases m
  · exact List.reverse_eq_nil_iff
  · exact .rfl

theorem inOrder_perm {α : Type} (m : Mode) (xs : List α) : (m.inOrder xs).Perm xs := by
  cases m
  · exact xs.reverse_perm
  · exact .refl _

theorem scanOrder_perm {α : Type} (m : Mode) (xs : List α) : (m.scanOrder xs).Perm xs := by
  cases m
  · exact .refl _
  · exact xs.reverse_perm

theorem inOrder_reverse_scanOrder {α : Type} (m : Mode) (xs : List α) :
    m.inOrder (m.scanOrder xs).reverse = xs := by
  cases m
  · exact xs.reverse_reverse
  · exact xs.reverse_reverse

theorem map_scanOrder {α β : Type} (m : Mode) (f : α → β) (xs : List α) :
    (m.scanOrder xs).map f = m.scanOrder (xs.map f) := by
  cases m
  · rfl
  · exact List.map_reverse

/-- What is done first and what is done afterwards, given what comes first in the text. -/
def join {α : Type} (m : Mode) (first second : List α) : List α :=
  match m with
  | rpn => first ++ second
  | pn => second ++ first

theorem join_perm {α : Type} (m : Mode) (first second : List α) :
    (m.join first second).Perm (first ++ second) := by
  cases m
  · exact .refl _
  · exact List.perm_append_comm

theorem mem_join {α : Type} {m : Mode} {first second : List α} {a : α} :
    a ∈ m.join first second ↔ a ∈ first ∨ a ∈ second := by
  rw [(m.join_perm first second).mem_iff, List.mem_append]

end Mode

end Polish
