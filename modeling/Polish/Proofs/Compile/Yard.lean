import Polish.Proofs.Compile.Operations
import Polish.Proofs.Phrase.Acceptable

/-!
# The yard

Between two brackets or separators a scan works on operands and operators only: whatever is inside
further brackets has become a single operand when it is over.  A `Yard` is the output and the stack
of such a stretch, without what was there before it, and `Yard.run` is the scan on it.  `Yard.add`
treats an operand in one way and an operator in another, and nothing else happens.

* `Phrase.pieces` — the operands and operators of a phrase, with the listings of its groups;
* `Phrase.listing` and `Phrase.entries` — what the phrase becomes and which arguments are attached
  on the way;
* `Yard.listing_perm` — a listing has the tokens of its pieces, each as often as they have it;
* `State.extend` — a state with a yard on top of it.

## Why there is a yard

A scan of a phrase with brackets in it is not a simple fold: what is inside a bracket is put out on
top of what was there before, and is spliced off again if it is an argument.  But seen from outside
the bracket it is one operand with some listing.  Cutting a phrase into pieces in this way leaves a
fold over pieces, in which the two kinds of piece are treated like the two kinds of token in the
algorithm without brackets, and everything about priorities can be said about that.  `State.extend`
is the way back: the yard on top of whatever state there was.
-/

set_option autoImplicit false

namespace Polish

open Compile (State Group gives)

/-! ## Pieces -/

/-- What a scan works on: an operand with its listing, or an operator. -/
inductive Piece where
  | operand (listing : List Token)
  | operator (token : Token)

namespace Piece

def tokens : Piece → List Token
  | operand listing => listing
  | operator token => [token]

/-- The piece that a single token is. -/
def ofToken (token : Token) : Piece :=
  if token.kind = .operator then operator token else operand [token]

/-- Operators are operators. -/
def Proper : Piece → Prop
  | operand _ => True
  | operator token => token.kind = .operator

theorem tokens_ofToken (t : Token) : (ofToken t).tokens = [t] := by
  unfold ofToken
  split <;> rfl

theorem proper_ofToken (t : Token) : (ofToken t).Proper := by
  unfold ofToken
  split
  · assumption
  · trivial

end Piece

/-! ## Yards -/

/-- Output and stack of a scan, newest first. -/
structure Yard where
  output : List Token
  operators : List Token

namespace Yard

def empty : Yard := ⟨[], []⟩

/-- The output after all operators have left the stack. -/
def flushed (y : Yard) : List Token := y.operators.reverse ++ y.output

/-- Only operators are on the stack. -/
def Proper (y : Yard) : Prop := ∀ t ∈ y.operators, t.kind = .operator

variable (m : Mode) (operators : Table Operator)

/-- Whether an operator on the stack leaves it before another one is pushed. -/
def yields (incoming top : Token) : Bool :=
  (operators.find? incoming.text).any fun operator => gives m operators operator top

/-- Scans one piece. -/
def add (y : Yard) : Piece → Yard
  | .operand listing => ⟨m.inOrder listing ++ y.output, y.operators⟩
  | .operator token =>
    ⟨(y.operators.takeWhile (yields m operators token)).reverse ++ y.output,
      token :: y.operators.dropWhile (yields m operators token)⟩

/-- Scans one piece after another. -/
def run (y : Yard) (pieces : List Piece) : Yard := pieces.foldl (add m operators) y

/-- The listing of pieces in reading order. -/
def listing (pieces : List Piece) : List Token :=
  m.inOrder (run m operators empty (m.scanOrder pieces)).flushed

variable {m operators}

@[simp] theorem run_concat (y : Yard) (pieces : List Piece) (p : Piece) :
    y.run m operators (pieces ++ [p]) = (y.run m operators pieces).add m operators p := by
  simp [run]

theorem proper_empty : empty.Proper := by simp [Proper, empty]

theorem Proper.add {y : Yard} {p : Piece} (hy : y.Proper) (hp : p.Proper) :
    (y.add m operators p).Proper := by
  cases p with
  | operand listing => exact hy
  | operator t =>
    intro u hu
    rcases List.mem_cons.1 hu with rfl | hu
    · exact hp
    · exact hy u (List.dropWhile_subset _ hu)

theorem Proper.operand {y : Yard} (hy : y.Proper) (listing : List Token) :
    (y.add m operators (.operand listing)).Proper := hy

theorem Proper.run {y : Yard} {pieces : List Piece} (hy : y.Proper) (hp : ∀ p ∈ pieces, p.Proper) :
    (y.run m operators pieces).Proper := by
  induction pieces generalizing y with
  | nil => exact hy
  | cons p pieces ih =>
    exact ih (hy.add (hp p List.mem_cons_self)) fun q hq => hp q (List.mem_cons_of_mem p hq)

theorem add_operand (m : Mode) (operators : Table Operator) (y : Yard) (out : List Token) :
    y.add m operators (.operand (m.inOrder out)) = ⟨out ++ y.output, y.operators⟩ := by
  rw [Yard.add, Mode.inOrder_inOrder]

theorem add_perm (y : Yard) (p : Piece) :
    (y.add m operators p).flushed.Perm (p.tokens ++ y.flushed) := by
  cases p with
  | operand listing =>
    rw [flushed, flushed, add, ← List.append_assoc, ← List.append_assoc]
    exact (((m.inOrder_perm listing).append_left _).trans List.perm_append_comm).append_right _
  | operator t =>
    have hsplit : y.operators.reverse = (y.operators.dropWhile (yields m operators t)).reverse
        ++ (y.operators.takeWhile (yields m operators t)).reverse := by
      rw [← List.reverse_append, List.takeWhile_append_dropWhile]
    rw [flushed, flushed, add, hsplit, List.reverse_cons, List.append_assoc, List.append_assoc]
    exact List.perm_middle

variable (m operators) in
theorem run_perm (y : Yard) (pieces : List Piece) :
    (y.run m operators pieces).flushed.Perm (pieces.flatMap Piece.tokens ++ y.flushed) := by
  induction pieces generalizing y with
  | nil => exact .refl _
  | cons p pieces ih =>
    refine (ih _).trans (((add_perm y p).append_left _).trans ?_)
    rw [List.flatMap_cons, ← List.append_assoc]
    exact List.perm_append_comm.append_right _

variable (m operators) in
/-- **A listing has the tokens of its pieces.** -/
theorem listing_perm (pieces : List Piece) :
    (listing m operators pieces).Perm (pieces.flatMap Piece.tokens) := by
  have hrun := run_perm m operators empty (m.scanOrder pieces)
  rw [show empty.flushed = [] from rfl, List.append_nil] at hrun
  exact (m.inOrder_perm _).trans (hrun.trans ((m.scanOrder_perm pieces).flatMap_right _))

end Yard

/-! ## The pieces of a phrase -/

mutual

/-- The operands and operators of a phrase. -/
def Phrase.pieces (m : Mode) (operators : Table Operator) : Phrase → List Piece
  | .nil => []
  | .plain token rest => .ofToken token :: rest.pieces m operators
  | .bracket none _ inner _ rest =>
    .operand (Yard.listing m operators (inner.headPieces m operators)) :: rest.pieces m operators
  | .bracket (some name) _ _ _ rest => .operand [name] :: rest.pieces m operators

/-- The operands and operators of the first of several phrases. -/
def Phrases.headPieces (m : Mode) (operators : Table Operator) : Phrases → List Piece
  | .last phrase => phrase.pieces m operators
  | .more phrase _ _ => phrase.pieces m operators

end

/-- What a phrase becomes. -/
def Phrase.listing (m : Mode) (operators : Table Operator) (p : Phrase) : List Token :=
  Yard.listing m operators (p.pieces m operators)

theorem Phrase.pieces_proper (m : Mode) (operators : Table Operator) :
    (p : Phrase) → ∀ q ∈ p.pieces m operators, q.Proper
  | .nil, _, hq => absurd hq List.not_mem_nil
  | .plain t rest, q, hq => by
    rcases List.mem_cons.1 hq with rfl | hq
    · exact Piece.proper_ofToken t
    · exact Phrase.pieces_proper m operators rest q hq
  | .bracket none _ _ _ rest, q, hq => by
    rcases List.mem_cons.1 hq with rfl | hq
    · trivial
    · exact Phrase.pieces_proper m operators rest q hq
  | .bracket (some _) _ _ _ rest, q, hq => by
    rcases List.mem_cons.1 hq with rfl | hq
    · trivial
    · exact Phrase.pieces_proper m operators rest q hq

/-- A sound phrase that is not empty becomes a listing that is not empty. -/
theorem Phrase.Sound.listing_ne_nil {m : Mode} {operators : Table Operator} {limit : Int} :
    (p : Phrase) → p.Sound operators limit → p ≠ .nil → p.listing m operators ≠ []
  | .nil, _, hne => absurd rfl hne
  | .plain t rest, _, _ => by
    intro h
    have hp := Yard.listing_perm m operators
      ((Phrase.plain t rest).pieces m operators)
    rw [show Yard.listing m operators _ = [] from h, Phrase.pieces, List.flatMap_cons,
      Piece.tokens_ofToken] at hp
    simpa using hp.nil_eq
  | .bracket none o (.last q) c rest, ⟨⟨r, hr, hne⟩, hs, _⟩, _ => by
    obtain rfl := Phrases.last.inj hr
    intro h
    have hp := Yard.listing_perm m operators
      ((Phrase.bracket none o (.last q) c rest).pieces m operators)
    rw [show Yard.listing m operators _ = [] from h, Phrase.pieces, List.flatMap_cons] at hp
    exact Phrase.Sound.listing_ne_nil q hs hne (List.append_eq_nil_iff.1 hp.nil_eq.symm).1
  | .bracket none _ (.more ..) _ _, ⟨⟨_, hr, _⟩, _⟩, _ => by cases hr
  | .bracket (some f) o inner c rest, _, _ => by
    intro h
    have hp := Yard.listing_perm m operators
      ((Phrase.bracket (some f) o inner c rest).pieces m operators)
    rw [show Yard.listing m operators _ = [] from h, Phrase.pieces, List.flatMap_cons] at hp
    simpa [Piece.tokens] using hp.nil_eq

@[simp] theorem Phrase.listing_nil (m : Mode) (operators : Table Operator) :
    Phrase.nil.listing m operators = [] := by
  cases m <;> rfl

theorem Phrase.Sound.listing_eq_nil_iff {m : Mode} {operators : Table Operator} {limit : Int}
    {p : Phrase} (h : p.Sound operators limit) : p.listing m operators = [] ↔ p = .nil := by
  refine ⟨fun hl => Classical.byContradiction fun hne => h.listing_ne_nil p hne hl, ?_⟩
  rintro rfl
  simp

/-- A phrase as an argument: nothing if it is empty. -/
def Phrase.asArgument : Phrase → List Phrase
  | nil => []
  | p => [p]

theorem Phrase.asArgument_of_ne {p : Phrase} (h : p ≠ .nil) : p.asArgument = [p] := by
  cases p with
  | nil => exact absurd rfl h
  | plain => rfl
  | bracket => rfl

@[simp] theorem Phrase.reverse_asArgument (p : Phrase) : p.asArgument.reverse = p.asArgument := by
  cases p <;> rfl

/-- What the scan of a sound phrase puts out is nothing only if the phrase is empty. -/
theorem Phrase.Sound.flushed_eq_nil_iff {m : Mode} {operators : Table Operator} {limit : Int}
    {p : Phrase} (h : p.Sound operators limit) :
    (Yard.empty.run m operators (m.scanOrder (p.pieces m operators))).flushed = [] ↔ p = .nil := by
  rw [← h.listing_eq_nil_iff (m := m), Phrase.listing, Yard.listing, Mode.inOrder_eq_nil_iff]

theorem Phrase.run_proper (m : Mode) (operators : Table Operator) (p : Phrase) :
    (Yard.empty.run m operators (m.scanOrder (p.pieces m operators))).Proper := by
  refine Yard.proper_empty.run fun q hq => Phrase.pieces_proper m operators p q ?_
  exact (m.scanOrder_perm _).mem_iff.1 hq

/-! ## The arguments attached on the way -/

mutual

/-- The arguments attached while a phrase is scanned, in the order in which that is done. -/
def Phrase.entries (m : Mode) (operators : Table Operator) :
    Phrase → List (Nat × List (List Token))
  | .nil => []
  | .plain _ rest => rest.entries m operators
  | .bracket name _ inner _ rest =>
    m.join (inner.entries m operators ++ name.toList.map fun f =>
        (f.handle, inner.arguments.map (Phrase.listing m operators)))
      (rest.entries m operators)

/-- The same for several phrases. -/
def Phrases.entries (m : Mode) (operators : Table Operator) :
    Phrases → List (Nat × List (List Token))
  | .last phrase => phrase.entries m operators
  | .more phrase _ rest => m.join (phrase.entries m operators) (rest.entries m operators)

end

/-! ## States with a yard on top -/

namespace Compile.State

/-- A state in which a yard has been scanned and some arguments attached. -/
def extend (s : State) (y : Yard) (entries : List (Nat × List (List Token))) : State :=
  { s with
    output := y.output ++ s.output
    operators := y.operators ++ s.operators
    attached := entries.reverse ++ s.attached }

/-- No operator is on top of the stack. -/
def Resting (s : State) : Prop := ∀ t ∈ s.operators.head?, t.kind ≠ .operator

/-- A state in which a bracket has been opened. -/
def inside (s : State) (bracket : Token) (group : Group) : State :=
  { s with operators := bracket :: s.operators, groups := group :: s.groups }

@[simp] theorem extend_empty (s : State) : s.extend .empty [] = s := rfl

theorem resting_inside {s : State} {bracket : Token} {group : Group}
    (h : bracket.kind ≠ .operator) : (s.inside bracket group).Resting := by
  intro t ht
  obtain rfl : bracket = t := by simpa [inside] using ht
  exact h

end Compile.State

end Polish
