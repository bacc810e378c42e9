import Mathlib.Data.List.Chain
import Polish.Proofs.Grammar.Turns
import Polish.Proofs.Grammar.Walk

/-!
# The sentences of the arithmetic grammar

Which kinds of tokens may follow each other, said without the states of the grammar: `Sentence`
asks how a text begins, what stands side by side, and how it ends.

`sentence_iff` — these are the lists of kinds that go from turn to turn and end where an operator
might follow.

## How the proof goes

What may come after some tokens depends on the last of them only, as each kind leads to one turn
from wherever it is admitted (`isSome_next_of_next`).  So going from turn to turn along a list is
the same as looking at its neighbours, and the first and the last kind are looked at by themselves.
-/

set_option autoImplicit false

namespace Polish

namespace Kind

/-- A text may begin with the kind, and it may stand behind an opening bracket, an operator or a
separator. -/
def begins : Kind → Bool
  | .number | .constant | .call | .openBracket | .closeBracket => true
  | _ => false

/-- The kind may stand behind a value or a closing bracket. -/
def continues : Kind → Bool
  | .operator | .separator | .closeBracket => true
  | _ => false

/-- A text may end with the kind. -/
def ends : Kind → Bool
  | .number | .constant | .closeBracket => true
  | _ => false

/-- Whether a token of some kind may stand directly behind one of another. -/
def admits : Kind → Kind → Bool
  | .call, after => after = .openBracket
  | .openBracket, after | .operator, after | .separator, after => after.begins
  | .number, after | .constant, after | .closeBracket, after => after.continues
  | .other _, _ => false

end Kind

/-- Some kinds of tokens in an order that is admissible. -/
def Sentence (kinds : List Kind) : Prop :=
  kinds = [] ∨ (∃ kind ∈ kinds.head?, kind.begins = true) ∧
    kinds.IsChain (fun before after => before.admits after = true) ∧
    ∃ kind ∈ kinds.getLast?, kind.ends = true

instance : DecidablePred Sentence := fun _ => inferInstanceAs (Decidable (_ ∨ _))

namespace Turn

variable {turn turn' : Turn} {kind : Kind} {kinds : List Kind}

/-- What may come after tokens of some kinds. -/
def through : Turn → List Kind → Option Turn
  | turn, [] => some turn
  | turn, kind :: rest => (turn.next kind).bind fun turn => turn.through rest

theorem after_eq_through (turn : Turn) (tokens : List Token) :
    turn.after tokens = turn.through (tokens.map Token.kind) := by
  induction tokens generalizing turn with
  | nil => rfl
  | cons t rest ih => simp only [after, List.map_cons, through, ih]

theorem through_cons_eq_some {final : Turn} :
    turn.through (kind :: kinds) = some final ↔
      ∃ turn', turn.next kind = some turn' ∧ turn'.through kinds = some final :=
  Option.bind_eq_some_iff

/-! ## Turns and neighbours -/

theorem isSome_next_value (kind : Kind) : (value.next kind).isSome = kind.begins := by
  cases kind <;> rfl

/-- What may come after a kind is settled by the kind. -/
theorem isSome_next_of_next (h : turn.next kind = some turn') (after : Kind) :
    (turn'.next after).isSome = kind.admits after := by
  cases turn <;> cases kind <;> cases h <;> cases after <;> rfl

theorem ends_of_next (h : turn.next kind = some turn') : turn' = operator ↔ kind.ends = true := by
  cases turn <;> cases kind <;> cases h <;> simp [Kind.ends]

/-- **Going from turn to turn is a matter of neighbours.** -/
theorem through_eq_operator_iff :
    turn.through (kind :: kinds) = some operator ↔ (turn.next kind).isSome = true ∧
      (kind :: kinds).IsChain (fun before after => before.admits after = true) ∧
      ∃ last ∈ (kind :: kinds).getLast?, last.ends = true := by
  induction kinds generalizing turn kind with
  | nil =>
    rw [through_cons_eq_some, Option.isSome_iff_exists]
    constructor
    · rintro ⟨turn', hnext, hlast⟩
      exact ⟨⟨turn', hnext⟩, .singleton _, kind, rfl,
        (ends_of_next hnext).1 (Option.some.inj hlast)⟩
    · rintro ⟨⟨turn', hnext⟩, -, last, hlast, hends⟩
      obtain rfl := Option.some.inj hlast
      exact ⟨turn', hnext, congrArg some ((ends_of_next hnext).2 hends)⟩
  | cons after rest ih =>
    rw [through_cons_eq_some, Option.isSome_iff_exists, List.isChain_cons_cons,
      List.getLast?_cons_cons]
    constructor
    · rintro ⟨turn', hnext, hrest⟩
      obtain ⟨hafter, hchain, hends⟩ := ih.1 hrest
      rw [isSome_next_of_next hnext] at hafter
      exact ⟨⟨turn', hnext⟩, ⟨hafter, hchain⟩, hends⟩
    · rintro ⟨⟨turn', hnext⟩, ⟨hafter, hchain⟩, hends⟩
      rw [← isSome_next_of_next hnext] at hafter
      exact ⟨turn', hnext, ih.2 ⟨hafter, hchain, hends⟩⟩

end Turn

theorem sentence_iff {kinds : List Kind} :
    Sentence kinds ↔ kinds = [] ∨ Turn.value.through kinds = some .operator := by
  cases kinds with
  | nil => exact iff_of_true (.inl rfl) (.inl rfl)
  | cons kind rest =>
    rw [Turn.through_eq_operator_iff, Turn.isSome_next_value, Sentence]
    simp

namespace Arithmetic

variable {pattern : Pattern} {limit : Int} {tokens : List Token}

/-- The empty text has no tokens. -/
theorem parse_empty (pattern : Pattern) (limit : Int) :
    (reading pattern).parse "" limit false = .ok [] :=
  (hookless_reading pattern).parse_of_ends (check_reading pattern) (entryRules_reading pattern)
    (.of_turn rfl)

/-- **What the arithmetic grammar accepts is a sentence.** -/
theorem sentence_of_parse {source : String}
    (h : (reading pattern).parse source limit false = .ok tokens) :
    Sentence (tokens.map Token.kind) := by
  by_cases hsource : source = ""
  · subst hsource
    rw [parse_empty] at h
    exact .inl (Except.ok.inj h ▸ rfl)
  · refine sentence_iff.2 (.inr ?_)
    rw [← Turn.after_eq_through, (parse_ok h).2.2 hsource]

end Arithmetic

end Polish
