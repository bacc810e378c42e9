import Polish.Proofs.Evaluate.Complaints

/-!
# How deeply an evaluation goes

An evaluation goes into the arguments of calls, and into the calls in them, down to a limit.  How
deeply calls are nested is a property of the sheet, `Sheet.NestedWithin`; a sheet may even lead from
a call to itself, and then no depth is enough.

That an evaluation counts the levels that are left is bookkeeping: it is the same as comparing the
depth with the limit at each call, with as many levels as one likes.  What would happen further down
does not matter, for an evaluation never gets there.

* `Job.runOr_eq` — no argument is evaluated at a depth above the limit;
* `nestedWithin_of_evaluates` — a listing that has a value is not nested more deeply than that;
* `Job.run_unlimited` — and one that is not does not run into the limit.

## How the proof goes

The evaluator carries a depth, which it compares with the limit, and a number of levels, on which it
recurses.  They always add up to the limit, and so the comparison fails exactly when no level is
left.  `evaluateOr` keeps the two apart: it recurses on any number of levels, compares the depth
itself, and where levels run out it does whatever it is given.  That this makes no difference once
there are more levels than the limit allows is proved by induction on the levels, for all depths and
frames at once.
-/

set_option autoImplicit false

namespace Polish

/-- The calls of a listing are nested at most so deeply. -/
def Sheet.NestedWithin (sheet : Sheet) : Nat → List Token → Prop
  | 0, list => ∀ t ∈ list, t.kind ≠ .call
  | depth + 1, list => ∀ t ∈ list, t.kind = .call → ∀ args, sheet.args? t.handle = some args →
      ∀ arg ∈ args, sheet.NestedWithin depth arg

namespace Evaluate

open Stepwise (Keeps)

/-! ## Values -/

variable {job : Job} {now : Surroundings}

/-- **What has a value is not nested too deeply.** -/
theorem nestedWithin_of_evaluates {levels : Nat} {list : List Token} {value : Float}
    (h : Evaluates job now levels list value) : now.sheet.NestedWithin levels list := by
  induction levels generalizing list value with
  | zero =>
    intro t ht hk
    obtain ⟨inside, -, hlevels, -⟩ := h.arguments ht hk
    cases hlevels
  | succ levels ih =>
    intro t ht hk args hargs arg harg
    obtain ⟨_, _, ⟨⟩, hargs', hvalues⟩ := h.arguments ht hk
    obtain rfl := Option.some.inj (hargs.symm.trans hargs')
    obtain ⟨value, hvalue⟩ := hvalues arg harg
    exact ih hvalue

namespace Job

variable {frame : Frame} {levels : Nat} {list : List Token}

/-! ## Limits -/

/-- A listing that is not nested too deeply does not run into the limit. -/
theorem evaluate_unlimited {sheet : Sheet} (h : sheet.NestedWithin levels list) :
    (job.evaluate levels frame list).Keeps (fun now => now.sheet = sheet)
      (fun failure => ∀ e, failure ≠ .limit e) fun _ => True := by
  have hstop (t : Token) : job.MayStop (fun failure => ∀ e, failure ≠ .limit e) t :=
    fun _ _ _ _ => nofun
  induction levels generalizing frame list with
  | zero =>
    exact listing_keeps (fun t _ => hstop t) (fun t ht hk => absurd hk (h t ht)) fun _ _ _ => nofun
  | succ levels ih =>
    refine listing_keeps (fun t _ => hstop t) (fun t ht hk => ?_) fun _ _ _ => nofun
    rintro now rfl args hargs argument hargument
    exact ih (h t ht hk args hargs argument hargument)

theorem run_unlimited (h : now.sheet.NestedWithin job.limits.callDepth.toNat list)
    (e : LimitExceeded) : (job.run list).eager now ≠ .error (.limit e) := by
  have hrun : (job.run list).Keeps (fun other => other.sheet = now.sheet)
      (fun failure => ∀ e, failure ≠ .limit e) fun _ => True :=
    (evaluate_unlimited h).bind fun _ _ => trivial
  exact fun hfails => hrun.of_error rfl hfails e rfl

/-! ## Arguments -/

/-- An evaluation that compares the depth of the arguments of each call with the limit.  So many
levels down it does something else, whatever that is. -/
def evaluateOr (job : Job) (other : Frame → List Token → Run Float) :
    Nat → Frame → List Token → Run Float
  | 0, frame, list => other frame list
  | levels + 1, frame, list =>
    let argument : Argument := fun caller list =>
      .emit ⟨.updateStack, some caller, -1, [], 0, true, none⟩
        (job.evaluateOr other levels ⟨frame.depth + 1, some caller⟩ list)
    job.listing frame
      (if job.limits.callDepth < (frame.depth + 1 : Nat) then none else some argument) list

/-- **No argument is evaluated at a depth above the limit**, so it does not matter what would be
done then.  The induction is on the levels, of which there are always more than the limit allows. -/
theorem evaluateOr_eq (other : Frame → List Token → Run Float)
    (hframe : (frame.depth : Int) ≤ job.limits.callDepth)
    (hlevels : job.limits.callDepth < levels + frame.depth) (list : List Token) :
    job.evaluateOr other levels frame list
      = job.evaluate (job.limits.callDepth - frame.depth).toNat frame list := by
  induction levels generalizing frame list with
  | zero => omega
  | succ levels ih =>
    rw [evaluateOr]
    by_cases hlimit : job.limits.callDepth < (frame.depth + 1 : Nat)
    · have hnone : (job.limits.callDepth - frame.depth).toNat = 0 := by omega
      rw [hnone, evaluate, if_pos hlimit]
    · have hleft : (job.limits.callDepth - frame.depth).toNat
          = (job.limits.callDepth - (frame.depth + 1 : Nat)).toNat + 1 := by omega
      have hinside (caller : Token) (list : List Token) :
          job.evaluateOr other levels ⟨frame.depth + 1, some caller⟩ list
            = job.evaluate (job.limits.callDepth - (frame.depth + 1 : Nat)).toNat
                ⟨frame.depth + 1, some caller⟩ list :=
        ih (by simp only; omega) (by simp only; omega) list
      rw [hleft, evaluate, if_neg hlimit]
      simp only [hinside]

/-- A whole evaluation of that kind. -/
def runOr (job : Job) (other : Frame → List Token → Run Float) (levels : Nat) (list : List Token) :
    Run Float := do
  let value ← job.evaluateOr other levels ⟨0, none⟩ list
  .emit ⟨.result, none, list.length, [value], value, false, none⟩ (.answer value)

theorem runOr_eq (other : Frame → List Token → Run Float) (hlimit : 0 ≤ job.limits.callDepth)
    (hlevels : job.limits.callDepth < levels) (list : List Token) :
    job.runOr other levels list = job.run list := by
  have hwhole : job.evaluateOr other levels ⟨0, none⟩ list
      = job.evaluate (job.limits.callDepth - (0 : Nat)).toNat ⟨0, none⟩ list :=
    evaluateOr_eq other hlimit (by simpa using hlevels) list
  rw [runOr, run, hwhole, Int.natCast_zero, Int.sub_zero]

end Job

end Evaluate

end Polish
