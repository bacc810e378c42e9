import Polish.Config.Settings

/-!
# Settings that can be applied

The declared check of a function name passes only names of binary functions.  So whatever validator
a document has gone through, as long as it makes the checks that are declared, the settings that
come out are `Settings.Valid`: each operator entry stands for an operator.
-/

set_option autoImplicit false

namespace Polish.Config

variable {ε : Type} {validate : Validator ε} {settings : Settings}

/-- A name that the check has given back is the name of a binary function. -/
theorem checkFunction_ok {name checked : String} (h : checkFunction name = .ok checked) :
    Binary.table.contains checked = true := by
  rw [checkFunction] at h
  split at h
  · next hknown => exact Except.ok.inj h ▸ hknown
  · cases h

namespace Settings

/-- Each operator entry stands for an operator. -/
def Valid (s : Settings) : Prop := ∀ entry ∈ s.operators.values, entry.operator?.isSome = true

/-- **What has been validated is valid.** -/
theorem valid_of_validated (hvalidate : validate.RunsChecks) {document : Value}
    (h : validate schema document = .ok settings) : settings.Valid := by
  intro entry hentry
  rw [OperatorEntry.operator?, Option.isSome_map]
  rcases hvalidate.function_checked schema document settings h entry hentry with
    ⟨name, hname⟩ | hstandard | ⟨standard, hstandard, hmem⟩
  · exact checkFunction_ok hname
  -- An entry may not leave its function out, and the table that a document leaves out is empty.
  · cases hstandard
  · obtain rfl : Table.empty = standard := Option.some.inj hstandard
    cases hmem

/-- The same settings with constants, operators and disabled functions in another order. -/
structure Reorders (s s' : Settings) : Prop where
  constants : s.constants.entries.Perm s'.constants.entries
  operators : s.operators.entries.Perm s'.operators.entries
  disabledFunctions : s.disabledFunctions.Perm s'.disabledFunctions
  limits : s.limits = s'.limits

/-- Another order of entries is as valid. -/
theorem Valid.of_reorders {settings' : Settings} (h : settings.Valid)
    (hreorders : settings.Reorders settings') : settings'.Valid := fun entry hentry =>
  h entry ((hreorders.operators.map Prod.snd).mem_iff.2 hentry)

end Settings

end Polish.Config
