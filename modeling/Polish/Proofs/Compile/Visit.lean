import Polish.Proofs.Compile.Yard

/-!
# Single tokens on a yard

What the operations of the compiler do to a state with a yard on top: the parts of both scans that
are the same or nearly so.

* `visit_plain` — a value or an operator becomes a piece of the yard;
* `closeGroup_extend` — the yard inside a bracket goes out when the bracket is closed;
* `endArgument_ok` and `endSegment_ok` — at a separator it becomes an argument;
* `closeCall_ok` and `collectArguments_ok` — at the end of a call it becomes the last one, if there
  is anything in it.

## How the proof goes

Each lemma here runs one operation on a state of the form `s.extend yard entries`, where below the
yard there is a bracket or nothing (`State.Resting`).  Such a state is again of that form
afterwards, with another yard, and that is all that the inductions over phrases need to know.
Operators never reach below the yard: the first token on the stack that is no operator stops them,
and `State.Resting` says that there is one or that the stack ends.
-/

set_option autoImplicit false

namespace Polish

namespace Compile

open Stepwise (eager_bind_ok eager_bind_of_ok)

variable {job : Job} {now : Surroundings} {place : Place} {s t : State} {y z : Yard}
variable {e e' : List (Nat × List (List Token))} {o : Token} {g : Group}

/-! ## Values and operators -/

theorem State.Resting.takeWhile (h : s.Resting) (m : Mode) (operators : Table Operator)
    (operator : Operator) (stack : List Token) :
    (stack ++ s.operators).takeWhile (gives m operators operator)
        = stack.takeWhile (gives m operators operator) ∧
      (stack ++ s.operators).dropWhile (gives m operators operator)
        = stack.dropWhile (gives m operators operator) ++ s.operators := by
  induction stack with
  | nil =>
    cases hs : s.operators with
    | nil => simp
    | cons top below =>
      have htop : gives m operators operator top = false := by
        simp [gives, h top (by simp [hs])]
      simp [htop]
  | cons top stack ih =>
    by_cases htop : gives m operators operator top = true
    · simp [htop, ih]
    · simp [htop]

/-- **A token that is no bracket, separator or call becomes a piece**, if it is a value or a
registered operator. -/
theorem visit_plain {u : Token} {i : Nat} {before after : Option Token} (hs : s.Resting)
    (hw : u.kind.weight = 0) (hsep : u.kind ≠ .separator) (hcall : u.kind ≠ .call) :
    (job.visit (s.extend y e) ⟨u, i, before, after⟩).eager now = .ok t ↔
      (u.kind.isValue = true ∨ u.kind = .operator ∧
        now.registries.operators.contains u.text = true) ∧
      t = s.extend (y.add job.mode now.registries.operators (.ofToken u)) e := by
  have value (hk : u.kind.isValue = true) :
      (job.visit (s.extend y e) ⟨u, i, before, after⟩).eager now
        = .ok (s.extend (y.add job.mode now.registries.operators (.ofToken u)) e) := by
    have hadd : y.add job.mode now.registries.operators (.ofToken u)
        = ⟨u :: y.output, y.operators⟩ := by
      cases hkind : u.kind <;> simp [hkind, Kind.isValue] at hk <;>
        cases job.mode <;> simp [Piece.ofToken, hkind, Yard.add, Mode.inOrder]
    rw [hadd, Job.visit]
    cases hkind : u.kind <;> simp [hkind, Kind.isValue] at hk <;>
      cases job.mode <;> simp [Job.visitForward, Job.visitBackward, hkind] <;> rfl
  cases hk : u.kind with
  | number | constant =>
    rw [value (by simp [hk, Kind.isValue]), ok_eq_ok]
    simp [Kind.isValue]
  | call => exact absurd hk hcall
  | operator =>
    have hvisit : job.visit (s.extend y e) ⟨u, i, before, after⟩
        = job.pushOperator (s.extend y e) ⟨u, i, before, after⟩ := by
      rw [Job.visit]
      cases job.mode <;> simp [Job.visitForward, Job.visitBackward, hk]
    rw [hvisit, pushOperator_ok, Table.contains]
    cases hf : now.registries.operators.find? u.text with
    | none => simp [Kind.isValue]
    | some operator =>
      obtain ⟨htake, hdrop⟩ :=
        hs.takeWhile job.mode now.registries.operators operator y.operators
      -- Both take off what gives way to the operator; the bracket below stops the scan there.
      have hy : Yard.yields job.mode now.registries.operators u
          = gives job.mode now.registries.operators operator := by
        funext top
        simp [Yard.yields, hf]
      simp [Kind.isValue, Piece.ofToken, hk, Yard.add, hy, State.extend, htake, hdrop]
  | openBracket | closeBracket => simp [hk, Kind.weight] at hw
  | separator => exact absurd hk hsep
  | other name =>
    have hvisit : job.visit (s.extend y e) ⟨u, i, before, after⟩
        = job.stopAt (.unknownKind u.text) ⟨u, i, before, after⟩ := by
      rw [Job.visit]
      cases job.mode <;> simp [Job.visitForward, Job.visitBackward, hk]
    rw [hvisit]
    simp [Kind.isValue]

/-! ## Brackets -/

/-- **What is inside a bracket goes out when it is closed.** -/
theorem closeGroup_extend {kind : Kind} {unmatched : Defect} (ho : o.kind = kind)
    (hk : kind ≠ .operator) (hz : z.Proper) :
    (job.closeGroup (((s.extend y e).inside o g).extend z e') place kind unmatched).eager now
      = .ok (g, s.extend ⟨z.flushed ++ y.output, y.operators⟩ (e ++ e')) := by
  rw [closeGroup_eager (show _ = z.operators ++ o :: _ from rfl) rfl ho
    fun t ht => by rw [hz t ht]; exact hk.symm]
  simp [State.extend, State.inside, Yard.flushed]

/-- A bracket that belongs to no call has to have something inside. -/
theorem checkNotEmpty_extend {out : List Token} {u : Unit}
    (hg : g.start = (s.extend y e).output.length) :
    (job.checkNotEmpty (s.extend ⟨out ++ y.output, y.operators⟩ e') g).eager now = .ok u ↔
      out ≠ [] := by
  rw [checkNotEmpty_ok, hg]
  simp [State.extend]

/-! ## Separators -/

/-- What both scans do at a separator: the yard leaves, and its output becomes an argument. -/
theorem popUntil_extend {kind : Kind} {unmatched : Defect} (ho : o.kind = kind)
    (hk : kind ≠ .operator) (hz : z.Proper) :
    (job.popUntil place kind unmatched ((s.inside o g).extend z e).operators
        ((s.inside o g).extend z e).output).eager now
      = .ok (z.flushed ++ s.output, o :: s.operators) := by
  refine (popUntil_eager ho s.operators z.operators (z.output ++ s.output) fun t ht => ?_).trans ?_
  · rw [hz t ht]
    exact hk.symm
  · simp [Yard.flushed]

theorem endArgument_ok {owner : Token} (ho : o.kind = .openBracket) (hz : z.Proper)
    (hg : g.start = s.output.length) :
    (job.endArgument ((s.inside o g).extend z e) place g s.groups owner).eager now = .ok t ↔
      (z.flushed ≠ [] ∧ (g.args.length + 1 : Int) ≤ job.limits.functionArgs) ∧
        t = (s.inside o { g with args := job.mode.inOrder z.flushed :: g.args }).extend
          .empty e := by
  rw [Job.endArgument, Stepwise.bind_eq, eager_bind_of_ok (popUntil_extend ho (by decide) hz)]
  dsimp only
  rw [takeArgument_append (show _ = z.flushed ++ s.output from rfl) hg]
  simp only [List.isEmpty_iff, Mode.inOrder_eq_nil_iff]
  split
  · next h => simp [h]
  · next h =>
    simp only [Stepwise.bind_eq, eager_bind_ok, Stepwise.pure_eq, Stepwise.eager_answer,
      ok_eq_ok, checkCount_ok, List.length_cons]
    simp [h, State.extend, State.inside, Yard.empty]

theorem endSegment_ok (ho : o.kind = .closeBracket) (hz : z.Proper)
    (hg : g.start = s.output.length) :
    (job.endSegment ((s.inside o g).extend z e) place g s.groups).eager now = .ok t ↔
      z.flushed ≠ [] ∧
        t = (s.inside o { g with
          args := job.mode.inOrder z.flushed :: g.args
          separator := some (place.token, place.index) }).extend .empty e := by
  rw [Job.endSegment, Stepwise.bind_eq, eager_bind_of_ok (popUntil_extend ho (by decide) hz)]
  dsimp only
  rw [takeArgument_append (show _ = z.flushed ++ s.output from rfl) hg]
  simp only [List.isEmpty_iff, Mode.inOrder_eq_nil_iff]
  split
  · next h => simp [h]
  · next h =>
    simp only [Stepwise.pure_eq, Stepwise.eager_answer, ok_eq_ok]
    simp [h, State.extend, State.inside, Yard.empty]

/-! ## The ends of calls -/

/-- The last argument of a call as a list: nothing if it is empty. -/
def lastArgument (m : Mode) (out : List Token) : List (List Token) :=
  if out = [] then [] else [m.inOrder out]

theorem closeCall_ok {owner : Token} {out : List Token}
    (hg : g.start = (s.extend y e).output.length) :
    (job.closeCall (s.extend ⟨out ++ y.output, y.operators⟩ e') place owner g).eager now
        = .ok t ↔
      ((out = [] → g.args = []) ∧
        Admits job.limits.functionArgs (lastArgument job.mode out ++ g.args).length) ∧
      t = s.extend y
        (e' ++ [(owner.handle, (lastArgument job.mode out ++ g.args).reverse)]) := by
  rw [Job.closeCall, takeArgument_append (List.append_assoc ..) hg]
  simp only [List.isEmpty_iff, Mode.inOrder_eq_nil_iff]
  by_cases hout : out = []
  · by_cases hargs : g.args = []
    · simp only [hout, hargs, if_true, attach_eager, ok_eq_ok]
      simp [lastArgument, State.extend, Admits]
    · simp [hout, hargs]
  · simp only [hout, if_false, Stepwise.bind_eq, eager_bind_ok, checkCount_ok, attach_eager,
      ok_eq_ok]
    simp [lastArgument, hout, State.extend, Admits]

theorem collectArguments_ok {out : List Token} (hg : g.start = (s.extend y e).output.length) :
    (job.collectArguments (s.extend ⟨out ++ y.output, y.operators⟩ e') place g).eager now
        = .ok t ↔
      ((out = [] → g.args = []) ∧
        Admits job.limits.functionArgs (lastArgument job.mode out ++ g.args).length) ∧
      t = s.extend y (e' ++ [(place.token.handle, lastArgument job.mode out ++ g.args)]) := by
  rw [Job.collectArguments, takeArgument_append (List.append_assoc ..) hg]
  simp only [Bool.and_eq_true, Bool.not_eq_true', List.isEmpty_iff, List.isEmpty_eq_false_iff,
    Mode.inOrder_eq_nil_iff]
  by_cases hout : out = []
  · by_cases hargs : g.args = []
    · simp only [hout, hargs, ne_eq, not_true_eq_false, and_false, if_true, if_false,
        Stepwise.bind_eq, eager_bind_ok, checkCounts_ok, attach_eager, ok_eq_ok]
      simp [lastArgument, State.extend]
    · simp [hout, hargs]
  · simp only [hout, false_and, if_false, Stepwise.bind_eq, eager_bind_ok, checkCounts_ok,
      attach_eager, ok_eq_ok]
    simp [lastArgument, hout, State.extend, Admits]

end Compile

end Polish
