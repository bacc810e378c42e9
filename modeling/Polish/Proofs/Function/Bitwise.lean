import Mathlib.Data.Int.ModEq
import Polish.Proofs.Number.Binary64
import Polish.Proofs.Number.Word32
import Polish.Registry

/-!
# The bitwise operators are exact

An operand of a bitwise operator is a double of any size, with a fraction or without, or no number
at all.  It stands for a whole number, its value cut down towards zero, and of that only the last 32
bits count, as a word in two's complement.  The result is the signed value of a word and is a double
exactly, `Binary.bitwise_exact`.

## How the proof goes

That operations on whole numbers are those of words is proved with the words (`Word32.both_toInt`,
…), and that a whole number of 53 bits is a double exactly is proved with the doubles.  Here the two
are joined, by one lemma for all four operators (`exact_onWords`).  A shift count needs a remark:
the operator takes its remainder after the operand has been cut to 32 bits, and since 32 divides `2
^ 32` this is the remainder of the operand itself.
-/

set_option autoImplicit false

namespace Polish

namespace Word32

/-! ## Operands -/

/-- The whole number that an operand stands for; zero if it is infinite or no number. -/
def operand (x : Float) : ℤ := if x.isFinite then Binary64.cut (Binary64.value x) else 0

/-- An operand is taken as the signed value of its last 32 bits. -/
theorem ofFloat_eq (x : Float) : ofFloat x = (BitVec.ofInt 32 (operand x)).toInt := by
  rw [ofFloat, operand]
  split
  · next hx => rw [Binary64.truncate_eq hx, wrap_eq]
  · rfl

/-- A shift count is the remainder of the whole operand, although only its last bits are left. -/
theorem toInt_ofInt_emod (b : ℤ) : (BitVec.ofInt 32 b).toInt % 32 = b % 32 := by
  rw [BitVec.toInt_ofInt, Int.bmod_def]
  split <;> omega

theorem ofInt_eq_of_modEq {a b : ℤ} (h : a ≡ b [ZMOD 2 ^ 32]) :
    BitVec.ofInt 32 a = BitVec.ofInt 32 b := by
  rw [← BitVec.toNat_inj, BitVec.toNat_ofInt, BitVec.toNat_ofInt]
  exact congrArg Int.toNat h

end Word32

namespace Binary

open Word32 (operand)

/-! ## Exact operations on words -/

/-- A function of two doubles that does exactly what an operation does that makes a word of two
whole numbers. -/
structure Exact (function : Function) (operation : ℤ → ℤ → BitVec 32) : Prop where
  /-- The result is a finite double, the signed value of the word. -/
  value (draw : Draw) (a b : Float) : ∃ r, function draw [a, b] = .ok r ∧ r.isFinite = true ∧
    Binary64.value r = (operation (operand a) (operand b)).toInt ∧
    -2 ^ 31 ≤ Binary64.value r ∧ Binary64.value r < 2 ^ 31
  /-- Nothing but the last 32 bits of the operands counts, and nothing is drawn. -/
  congr (draw draw' : Draw) (a b c d : Float) : operand a ≡ operand c [ZMOD 2 ^ 32] →
    operand b ≡ operand d [ZMOD 2 ^ 32] → function draw [a, b] = function draw' [c, d]

theorem exact_onWords {f : Int → Int → Int} {operation : ℤ → ℤ → BitVec 32}
    (h : ∀ a b, f (BitVec.ofInt 32 a).toInt (BitVec.ofInt 32 b).toInt = (operation a b).toInt) :
    Exact (.binary (onWords f)) operation where
  value draw a b := by
    let word := operation (operand a) (operand b)
    have hlo : -2 ^ 31 ≤ word.toInt := BitVec.le_toInt word
    have hhi : word.toInt < 2 ^ 31 := BitVec.toInt_lt
    have hbits : word.toInt.natAbs < 2 * Binary64.hiddenBit := by
      rw [Binary64.hiddenBit]
      omega
    obtain ⟨hfinite, hvalue⟩ := Binary64.value_ofInt hbits
    refine ⟨Binary64.ofInt word.toInt, ?_, hfinite, hvalue, ?_, ?_⟩
    · rw [Function.binary, onWords, Word32.ofFloat_eq, Word32.ofFloat_eq, h]
    -- the bounds of the word, as rational numbers
    · rw [hvalue]
      exact_mod_cast hlo
    · rw [hvalue]
      exact_mod_cast hhi
  congr draw draw' a b c d hac hbd := by
    rw [Function.binary, Function.binary, onWords, onWords, Word32.ofFloat_eq a,
      Word32.ofFloat_eq b, Word32.ofInt_eq_of_modEq hac, Word32.ofInt_eq_of_modEq hbd,
      ← Word32.ofFloat_eq c, ← Word32.ofFloat_eq d]

/-- The function of a name and the operator of a symbol are the same and do exactly what an
operation does. -/
def Stands (name symbol : String) (operation : ℤ → ℤ → BitVec 32) : Prop :=
  ∃ function, table.find? name = some function ∧
    (Registries.standardOperators.find? symbol).map Operator.function = some function ∧
    Exact function operation

/-! ## The operators -/

/-- **The bitwise operators are exact operations on words of 32 bits**: the bits of both operands,
the bits of either, and the shifts to the left and, with the sign, to the right, by a count of
which the remainder by 32 is taken. -/
theorem bitwise_exact :
    Stands "and" "&" (fun a b => BitVec.ofInt 32 a &&& BitVec.ofInt 32 b) ∧
      Stands "or" "|" (fun a b => BitVec.ofInt 32 a ||| BitVec.ofInt 32 b) ∧
      Stands "shl" "<<" (fun a b => BitVec.ofInt 32 a <<< (b % 32).toNat) ∧
      Stands "shr" ">>" (fun a b => (BitVec.ofInt 32 a).sshiftRight (b % 32).toNat) := by
  refine ⟨⟨_, rfl, rfl, exact_onWords fun a b => ?_⟩, ⟨_, rfl, rfl, exact_onWords fun a b => ?_⟩,
    ⟨_, rfl, rfl, exact_onWords fun a b => ?_⟩, ⟨_, rfl, rfl, exact_onWords fun a b => ?_⟩⟩
  · exact Word32.both_toInt ..
  · exact Word32.either_toInt (by decide) ..
  · rw [Word32.shiftLeft_toInt, Word32.toInt_ofInt_emod]
  · rw [Word32.shiftRight_toInt, Word32.toInt_ofInt_emod]

end Binary

end Polish
