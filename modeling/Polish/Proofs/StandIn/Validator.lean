import Polish.StandIn.Validator
import Polish.Proofs.Table

/-!
# The validator makes the checks that are declared

`Lenient.runsChecks_validate` — the validator of `Polish.StandIn.Validator` is one that an engine
can be configured through.  Whatever it accepts has come through `both` and `each` with all its
parts accepted, down to the function name of each operator entry.
-/

set_option autoImplicit false

namespace Polish.Lenient

open Config

/-! ## Checks -/

namespace Checked

variable {α β γ : Type}

theorem both_ok {f : α → β → γ} {a : Checked α} {b : Checked β} {c : γ}
    (h : both f a b = .ok c) : ∃ x y, a = .ok x ∧ b = .ok y ∧ c = f x y := by
  cases a with
  | error es => cases b <;> cases h
  | ok x =>
    cases b with
    | error es => cases h
    | ok y => exact ⟨x, y, rfl, rfl, (Except.ok.inj h).symm⟩

theorem map_ok {f : α → β} {a : Checked α} {b : β} (h : Except.map f a = .ok b) :
    ∃ x, a = .ok x ∧ b = f x := by
  cases a with
  | error es => cases h
  | ok x => exact ⟨x, rfl, (Except.ok.inj h).symm⟩

theorem exists_of_mem_each {check : α → Checked β} {as : List α} {bs : List β}
    (h : each check as = .ok bs) : ∀ b ∈ bs, ∃ a ∈ as, check a = .ok b := by
  induction as generalizing bs with
  | nil =>
    obtain rfl := Except.ok.inj h
    intro b hb
    cases hb
  | cons a rest ih =>
    obtain ⟨first, others, hfirst, hothers, rfl⟩ := both_ok h
    intro b hb
    rcases List.mem_cons.1 hb with rfl | hb
    · exact ⟨a, List.mem_cons_self, hfirst⟩
    · obtain ⟨other, hmem, hother⟩ := ih hothers b hb
      exact ⟨other, List.mem_cons_of_mem a hmem, hother⟩

end Checked

open Checked

/-- The values of a table that was read have been read. -/
theorem readTable_values {α : Type} {read : List PathStep → Value → Checked α}
    {path : List PathStep} {v : Value} {t : Table α} (h : readTable read path v = .ok t) :
    ∀ a ∈ t.values, ∃ inside value, read inside value = .ok a := by
  cases v with
  | map entries =>
    obtain ⟨pairs, hread, rfl⟩ := map_ok h
    intro a ha
    obtain ⟨entry, hentry, rfl⟩ := List.mem_map.1 ha
    obtain ⟨_, -, hpair⟩ := exists_of_mem_each hread entry (Table.mem_of_mem_ofList hentry)
    obtain ⟨name, value, -, hvalue, rfl⟩ := both_ok hpair
    exact ⟨_, _, hvalue⟩
  | _ => cases h

/-! ## Fields -/

/-- What a field is has been read, or it is what its declaration says. -/
theorem readField_ok {α : Type} {path : List PathStep}
    {read : List PathStep → Value → Checked α} {field : Declaration α}
    {found : Option (String × Value)} {a : α} (h : readField path read field found = .ok a) :
    (∃ inside value, read inside value = .ok a) ∨ field.standard = some a := by
  cases found with
  | some entry => exact .inl ⟨_, _, h⟩
  | none =>
    rw [readField] at h
    cases hstandard : field.standard with
    | none =>
      rw [hstandard] at h
      cases h
    | some standard =>
      rw [hstandard] at h
      exact .inr (congrArg some (Except.ok.inj h))

theorem readChecked_ok {check : String → Except String String} {path : List PathStep} {v : Value}
    {name : String} (h : readChecked check path v = .ok name) : ∃ text, check text = .ok name := by
  rw [readChecked] at h
  cases hread : readText path v with
  | error es =>
    rw [hread] at h
    cases h
  | ok text =>
    rw [hread] at h
    dsimp only at h
    cases hcheck : check text with
    | error reason =>
      rw [hcheck] at h
      cases h
    | ok checked =>
      rw [hcheck] at h
      exact ⟨text, Except.ok.inj h ▸ hcheck⟩

/-- The function name of an entry has passed the check, or it is the declared one. -/
theorem readEntry_ok {schema : Schema} {path : List PathStep} {v : Value} {entry : OperatorEntry}
    (h : readEntry schema path v = .ok entry) :
    (∃ name, schema.entry.check name = .ok entry.function) ∨
      schema.entry.function.standard = some entry.function := by
  cases v with
  | map entries =>
    obtain ⟨_, _, hentry, -, rfl⟩ := both_ok h
    obtain ⟨⟨level, function⟩, right, hfields, -, rfl⟩ := both_ok hentry
    obtain ⟨_, _, -, hfunction, heq⟩ := both_ok hfields
    obtain ⟨rfl, rfl⟩ := Prod.mk.inj heq
    exact (readField_ok hfunction).imp_left fun ⟨_, _, hread⟩ => readChecked_ok hread
  | _ => cases h

/-! ## Settings -/

/-- **The checks that are declared have been made** in all settings that are accepted. -/
theorem runsChecks_validate : Validator.RunsChecks validate where
  function_checked schema document settings h entry hentry := by
    cases document with
    | map entries =>
      obtain ⟨_, _, hfields, -, rfl⟩ := both_ok h
      obtain ⟨⟨constants, operators⟩, ⟨disabled, limits⟩, htables, -, rfl⟩ := both_ok hfields
      obtain ⟨_, _, -, hoperators, heq⟩ := both_ok htables
      obtain ⟨rfl, rfl⟩ := Prod.mk.inj heq
      rcases readField_ok hoperators with ⟨inside, value, hread⟩ | hstandard
      · obtain ⟨place, v, hv⟩ := readTable_values hread entry hentry
        exact (readEntry_ok hv).imp_right .inl
      · exact .inr (.inr ⟨operators, hstandard, hentry⟩)
    | _ => cases h

end Polish.Lenient
