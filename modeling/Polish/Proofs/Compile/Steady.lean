import Polish.Engine
import Polish.Proofs.Compile.Operations

/-!
# What a compilation looks at

A scan looks at its surroundings only to ask which operators the tokens on its stack and the token
that it scans stand for, and on the stack are only tokens that it has scanned.  So it goes on in the
same way as long as these operators stay as they are: `Job.heeds_scan` says that for any view of the
surroundings that shows what the listed tokens stand for.

* `Job.run_steady` — after its first look, which is for arguments attached already, a compilation
  looks at nothing but the registries, so it does not notice what other compilations attach to the
  same tokens while it is under way;
* `Job.run_names` — of the registries a whole compilation sees no more than what its tokens name.

## How the proof goes

A computation *heeds* a view of the surroundings if each of its looks can be answered from the view,
as long as it is in a state that satisfies some condition, and if its answers satisfy a condition
again.  The condition is that only listed tokens wait on the stack, and the view shows what these
tokens stand for.  Conditions go through `bind` like pre- and postconditions, so each operation has
one lemma, and the scan follows by induction on the places.

The first look of a compilation is different: it is at the sheet, to see whether the tokens are new.
`afterLook` is what is left when that is over, and steadiness is a property of the rest.
-/

set_option autoImplicit false

namespace Polish

/-- Two registries give a name the same meaning. -/
structure Registries.AgreeOn (r r' : Registries) (name : String) : Prop where
  operators : r.operators.find? name = r'.operators.find? name
  functions : r.functions.find? name = r'.functions.find? name
  constants : r.constants.find? name = r'.constants.find? name

theorem Registries.AgreeOn.knows {r r' : Registries} {token : Token}
    (h : r.AgreeOn r' token.text) : r.knows token = r'.knows token := by
  simp only [Registries.knows, Table.contains, h.functions, h.constants]

theorem Registries.firstUnknown?_congr {r r' : Registries} {tokens : List Token}
    (h : ∀ t ∈ tokens, r.AgreeOn r' t.text) : r.firstUnknown? tokens = r'.firstUnknown? tokens := by
  induction tokens with
  | nil => rfl
  | cons t rest ih =>
    have hrest := ih fun u hu => h u (List.mem_cons_of_mem t hu)
    rw [firstUnknown?] at hrest ⊢
    rw [List.find?_cons, (h t List.mem_cons_self).knows, hrest, firstUnknown?, firstUnknown?,
      List.find?_cons]

namespace Compile

open Stepwise (DependsOn Heeds)

section

variable {ζ : Type} {view : Surroundings → ζ} {listed : Token → Prop}

/-- The view shows which operators the listed tokens stand for. -/
def ShowsOperators (view : Surroundings → ζ) (listed : Token → Prop) : Prop :=
  ∀ now now', view now = view now' → ∀ t, listed t →
    now.registries.operators.find? t.text = now'.registries.operators.find? t.text

/-- Only listed tokens wait on the stack. -/
def State.Stacks (listed : Token → Prop) (s : State) : Prop := ∀ t ∈ s.operators, listed t

/-- The same for a stack on its own, with the output beside it. -/
def Stacks (listed : Token → Prop) (result : List Token × List Token) : Prop :=
  ∀ t ∈ result.2, listed t

namespace Job

variable (job : Job) {s : State} {place : Place} {group : Group}

/-! ## Operators -/

theorem heeds_popOutranked (hview : ShowsOperators view listed) (operator : Operator)
    {stack : List Token} (output : List Token) (hstack : ∀ t ∈ stack, listed t) :
    (job.popOutranked place operator stack output).Heeds view (Stacks listed) := by
  induction stack generalizing output with
  | nil => exact hstack
  | cons top below ih =>
    have hbelow : ∀ t ∈ below, listed t := fun t ht => hstack t (List.mem_cons_of_mem top ht)
    rw [popOutranked]
    split
    · exact hstack
    · refine ⟨fun now now' h => ?_, fun now => ?_⟩
      · simp only [hview now now' h top (hstack top List.mem_cons_self)]
      · dsimp only
        split
        · exact hstack
        · split
          · exact ih _ hbelow
          · exact hstack

theorem heeds_pushOperator (hview : ShowsOperators view listed) (hplace : listed place.token)
    (hs : s.Stacks listed) : (job.pushOperator s place).Heeds view (State.Stacks listed) := by
  refine ⟨fun now now' h => by simp only [hview now now' h place.token hplace], fun now => ?_⟩
  dsimp only
  split
  · trivial
  · next operator _ =>
    show Heeds view _ ((s.report place .lookUp place.token
      (.level place.token.text operator.level)).bind _)
    refine Heeds.bind (p := State.Stacks listed) hs fun s hs => ?_
    refine Heeds.bind (job.heeds_popOutranked hview _ _ hs) fun result hresult => ?_
    exact List.forall_mem_cons.2 ⟨hplace, hresult⟩

/-! ## Brackets -/

theorem heeds_popUntil (kind : Kind) (unmatched : Defect) {stack : List Token}
    (output : List Token) (hstack : ∀ t ∈ stack, listed t) :
    (job.popUntil place kind unmatched stack output).Heeds view (Stacks listed) := by
  induction stack generalizing output with
  | nil => trivial
  | cons top below ih =>
    rw [popUntil]
    split
    · exact hstack
    · exact ih _ fun t ht => hstack t (List.mem_cons_of_mem top ht)

theorem heeds_closeGroup (kind : Kind) (unmatched : Defect) (hs : s.Stacks listed) :
    (job.closeGroup s place kind unmatched).Heeds view fun result => result.2.Stacks listed := by
  refine Heeds.bind (job.heeds_popUntil kind unmatched s.output hs) ?_
  rintro ⟨output, stack⟩ hstack
  dsimp only
  split
  · exact fun t ht => hstack t (List.mem_cons_of_mem _ ht)
  · trivial

theorem heeds_checkNotEmpty : (job.checkNotEmpty s group).Heeds view fun _ => True := by
  rw [checkNotEmpty]
  split <;> trivial

/-! ## Arguments -/

theorem heeds_checkCount (owner : Token) (count : Nat) :
    (job.checkCount owner count).Heeds view fun _ => True := by
  rw [checkCount]
  split <;> trivial

theorem heeds_checkCounts (owner : Token) (count : Nat) :
    (job.checkCounts owner count).Heeds view fun _ => True := by
  rw [checkCounts]
  have hfold (indices : List Nat) (start : Run Unit) (hstart : start.Heeds view fun _ => True) :
      (indices.foldl (fun run i => run.bind fun _ => job.checkCount owner (i + 1))
        start).Heeds view fun _ => True := by
    induction indices generalizing start with
    | nil => exact hstart
    | cons i indices ih => exact ih _ (hstart.bind fun _ _ => job.heeds_checkCount owner _)
  exact hfold _ _ trivial

theorem heeds_closeCall (owner : Token) (hs : s.Stacks listed) :
    (job.closeCall s place owner group).Heeds view (State.Stacks listed) := by
  rw [closeCall]
  dsimp only [takeArgument]
  split
  · split
    · exact hs
    · trivial
  · exact Heeds.bind (job.heeds_checkCount owner _) fun _ _ => hs

theorem heeds_collectArguments (hs : s.Stacks listed) :
    (job.collectArguments s place group).Heeds view (State.Stacks listed) := by
  rw [collectArguments]
  dsimp only [takeArgument]
  split
  · trivial
  · exact Heeds.bind (job.heeds_checkCounts place.token _) fun _ _ => hs

theorem heeds_endArgument (around : List Group) (owner : Token) (hs : s.Stacks listed) :
    (job.endArgument s place group around owner).Heeds view (State.Stacks listed) := by
  refine Heeds.bind (job.heeds_popUntil _ _ s.output hs) fun result hresult => ?_
  dsimp only [takeArgument]
  split
  · trivial
  · exact Heeds.bind (job.heeds_checkCount owner _) fun _ _ => hresult

theorem heeds_endSegment (around : List Group) (hs : s.Stacks listed) :
    (job.endSegment s place group around).Heeds view (State.Stacks listed) := by
  refine Heeds.bind (job.heeds_popUntil _ _ s.output hs) fun result hresult => ?_
  dsimp only [takeArgument]
  split
  · trivial
  · exact hresult

theorem heeds_completeGroup (hs : s.Stacks listed) :
    (job.completeGroup s place).Heeds view (State.Stacks listed) := by
  refine Heeds.bind (job.heeds_closeGroup _ _ hs) fun result hresult => ?_
  dsimp only
  split
  · exact hresult
  · split
    · trivial
    · exact Heeds.bind (job.heeds_checkNotEmpty) fun _ _ => hresult

/-! ## Scans -/

theorem heeds_visitForward (hview : ShowsOperators view listed) (hplace : listed place.token)
    (hs : s.Stacks listed) : (job.visitForward s place).Heeds view (State.Stacks listed) := by
  rw [visitForward]
  split
  · exact hs
  · exact hs
  · refine Heeds.bind (p := State.Stacks listed) hs fun s hs => ?_
    split
    · exact hs
    · trivial
  · exact job.heeds_pushOperator hview hplace hs
  · exact List.forall_mem_cons.2 ⟨hplace, hs⟩
  · refine Heeds.bind (job.heeds_closeGroup _ _ hs) fun result hresult => ?_
    dsimp only
    split
    · exact Heeds.bind (job.heeds_checkNotEmpty) fun _ _ => hresult
    · exact job.heeds_closeCall _ hresult
  · split
    · trivial
    · split
      · trivial
      · exact job.heeds_endArgument _ _ hs
  · trivial

theorem heeds_visitBackward (hview : ShowsOperators view listed) (hplace : listed place.token)
    (hs : s.Stacks listed) : (job.visitBackward s place).Heeds view (State.Stacks listed) := by
  rw [visitBackward]
  split
  · exact hs
  · exact hs
  · split
    · trivial
    · exact Heeds.bind (job.heeds_collectArguments hs) fun _ hs => hs
  · exact job.heeds_pushOperator hview hplace hs
  · exact List.forall_mem_cons.2 ⟨hplace, hs⟩
  · exact job.heeds_completeGroup hs
  · split
    · trivial
    · exact job.heeds_endSegment _ hs
  · trivial

/-- **A scan of listed tokens** looks at nothing but the operators that they stand for, and no other
tokens wait on its stack. -/
theorem heeds_scan (hview : ShowsOperators view listed) (visited : List Place)
    (hvisited : ∀ place ∈ visited, listed place.token) (hs : s.Stacks listed) :
    (job.scan visited s).Heeds view (State.Stacks listed) := by
  induction visited generalizing s with
  | nil => exact hs
  | cons place rest ih =>
    obtain ⟨hplace, hrest⟩ := List.forall_mem_cons.1 hvisited
    refine Heeds.bind (p := State.Stacks listed) ?_ fun s hs => ih hrest hs
    rw [visit]
    split
    · exact job.heeds_visitForward hview hplace hs
    · exact job.heeds_visitBackward hview hplace hs

theorem heeds_flush (stack output : List Token) :
    (job.flush stack output).Heeds view fun _ => True := by
  induction stack generalizing output with
  | nil => trivial
  | cons top below ih => exact ih _

end Job

end

/-! ## Whole compilations -/

/-- The computation looks at nothing but the registries. -/
abbrev Steady {α : Type} (c : Run α) : Prop := c.DependsOn Surroundings.registries

namespace Job

variable (job : Job)

/-- What a compilation does after its first look. -/
def afterLook : Run Compiled := do
  let s ← job.scan (job.mode.scanOrder (places job.tokens)) .start
  job.checkClosed s
  let output ← job.flush s.operators s.output
  let now ← Stepwise.surroundings
  return {
    listing := job.mode.inOrder output
    attached := s.attached.reverse
    evaluable := (now.registries.firstUnknown? job.tokens).isNone }

theorem run_eq : job.run = job.checkFresh.bind fun _ => job.afterLook := rfl

/-- After its first look, a compilation depends on no more than the operators that its tokens stand
for and whether all their names are known. -/
theorem dependsOn_afterLook {ζ : Type} {view : Surroundings → ζ}
    (hview : ShowsOperators view (· ∈ job.tokens))
    (hknown : ∀ now now', view now = view now' →
      now.registries.firstUnknown? job.tokens = now'.registries.firstUnknown? job.tokens) :
    job.afterLook.DependsOn view := by
  have hplaces : ∀ place ∈ job.mode.scanOrder (places job.tokens), place.token ∈ job.tokens :=
    fun place hplace => mem_of_mem_places ((job.mode.scanOrder_perm _).mem_iff.1 hplace)
  have hscan := job.heeds_scan (s := .start) hview _ hplaces fun t ht => by cases ht
  refine DependsOn.bind hscan.dependsOn fun s => DependsOn.bind ?_ fun _ =>
    DependsOn.bind (job.heeds_flush _ _).dependsOn fun output => ?_
  · rw [checkClosed]
    split <;> trivial
  · refine ⟨fun now now' h => ?_, fun _ => trivial⟩
    simp only [Stepwise.answer_bind, hknown now now' h]

/-- **After its first look a compilation is steady.** -/
theorem run_steady : ∃ next : Surroundings → Run Compiled, job.run = .look next ∧
    ∀ now, Steady (next now) := by
  have hafter : Steady job.afterLook :=
    job.dependsOn_afterLook (fun now now' h t _ => by rw [h]) (fun now now' h => by rw [h])
  refine ⟨_, rfl, fun now => DependsOn.bind ?_ fun _ => hafter⟩
  dsimp only
  split <;> trivial

/-- **Of the registries a compilation sees no more than what its tokens name.** -/
theorem run_names {sheet : Sheet} {r r' : Registries} (h : ∀ t ∈ job.tokens, r.AgreeOn r' t.text) :
    job.run.eager ⟨r, sheet⟩ = job.run.eager ⟨r', sheet⟩ := by
  let view (now : Surroundings) : List (Option Operator) × Option Token :=
    (job.tokens.map fun t => now.registries.operators.find? t.text,
      now.registries.firstUnknown? job.tokens)
  have hafter : job.afterLook.DependsOn view := by
    refine job.dependsOn_afterLook (fun now now' hnow t ht => ?_) fun now now' hnow =>
      (Prod.mk.inj hnow).2
    exact List.map_inj_left.1 (Prod.mk.inj hnow).1 t ht
  have hview : view ⟨r, sheet⟩ = view ⟨r', sheet⟩ := by
    refine Prod.ext (List.map_congr_left fun t ht => (h t ht).operators) ?_
    exact Registries.firstUnknown?_congr h
  have hfresh : job.checkFresh.eager ⟨r, sheet⟩ = job.checkFresh.eager ⟨r', sheet⟩ := by
    rw [checkFresh, Stepwise.eager_look, Stepwise.eager_look]
    dsimp only
    cases job.firstCompiled? sheet <;> rfl
  rw [run_eq, Stepwise.eager_bind, Stepwise.eager_bind, hfresh, hafter.eager_eq hview]

end Job

end Compile

end Polish
