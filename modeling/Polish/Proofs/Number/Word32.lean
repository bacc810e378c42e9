import Mathlib.Data.Nat.Bitwise
import Polish.Number.Word32

/-!
# The bitwise operations are those of words

The bitwise operators work on whole numbers of any size and wrap around at every step.  What comes
out is the signed value of a word of 32 bits, and the operations are those of words, for negative
operands as well:

* `Word32.both_toInt`, `Word32.either_toInt` — on the signed values of two words, of any length;
* `Word32.both_mask` — the last bits of a number are its remainder;
* `Word32.wrap_eq` — so wrapping takes the signed value of the word that a number ends in;
* `Word32.shiftLeft_toInt`, `Word32.shiftRight_toInt` — and shifts by a remainder, also of a
  negative number, are shifts of words.

## How the proof goes

A whole number below zero is an infinite row of binary digits that are 1 from some place on, and the
operations take its complement apart instead.  On words this is the complement of the word
(`toInt_of_msb_true`).  So the two signs give four cases, each of them a law for complements, and no
bit has to be looked at by itself but in `xor_and_not`.
-/

set_option autoImplicit false

namespace Polish.Word32

variable {w : Nat}

/-! ## Signed values -/

/-- A word with the sign bit has the signed value that its complement has without it. -/
theorem toInt_of_msb_true {x : BitVec w} (h : x.msb = true) :
    x.toInt = .negSucc (~~~x).toNat := by
  have hlt := x.isLt
  rw [BitVec.toInt_eq_msb_cond, if_pos h, BitVec.toNat_not, Int.negSucc_eq]
  omega

theorem xor_and_not (x y : BitVec w) : x ^^^ (x &&& ~~~y) = x &&& y := by
  ext i hi
  simp only [BitVec.getElem_xor, BitVec.getElem_and, BitVec.getElem_not]
  cases x[i] <;> cases y[i] <;> rfl

/-- **The bits that two numbers have in common**, for the signed values of words. -/
theorem both_toInt (x y : BitVec w) : both x.toInt y.toInt = (x &&& y).toInt := by
  have mixed (x y : BitVec w) (hx : x.msb = false) :
      ((x.toNat ^^^ (x.toNat &&& (~~~y).toNat) : Nat) : Int) = (x &&& y).toInt := by
    have hboth : (x &&& y).msb = false := by rw [BitVec.msb_and, hx, Bool.false_and]
    rw [BitVec.toInt_eq_toNat_of_msb hboth, ← BitVec.toNat_and, ← BitVec.toNat_xor, xor_and_not]
  cases hx : x.msb <;> cases hy : y.msb
  · have hboth : (x &&& y).msb = false := by rw [BitVec.msb_and, hx, Bool.false_and]
    rw [BitVec.toInt_eq_toNat_of_msb hx, BitVec.toInt_eq_toNat_of_msb hy,
      BitVec.toInt_eq_toNat_of_msb hboth, BitVec.toNat_and]
    rfl
  · rw [BitVec.toInt_eq_toNat_of_msb hx, toInt_of_msb_true hy]
    exact mixed x y hx
  · rw [toInt_of_msb_true hx, BitVec.toInt_eq_toNat_of_msb hy, BitVec.and_comm]
    exact mixed y x hy
  · have hboth : (x &&& y).msb = true := by rw [BitVec.msb_and, hx, hy, Bool.and_true]
    rw [toInt_of_msb_true hx, toInt_of_msb_true hy, toInt_of_msb_true hboth, BitVec.not_and,
      BitVec.toNat_or]
    rfl

theorem not_toInt (hw : 0 < w) (x : BitVec w) : ~~~ x.toInt = (~~~x).toInt := by
  have hnot : (~~~x).msb = !x.msb := by rw [BitVec.msb_not, decide_eq_true hw, Bool.true_and]
  cases hx : x.msb with
  | false =>
    rw [hx] at hnot
    rw [BitVec.toInt_eq_toNat_of_msb hx, toInt_of_msb_true hnot, BitVec.not_not]
    rfl
  | true =>
    rw [hx] at hnot
    rw [toInt_of_msb_true hx, BitVec.toInt_eq_toNat_of_msb hnot]
    rfl

theorem either_toInt (hw : 0 < w) (x y : BitVec w) :
    either x.toInt y.toInt = (x ||| y).toInt := by
  rw [either, not_toInt hw, not_toInt hw, both_toInt, not_toInt hw, BitVec.not_and, BitVec.not_not,
    BitVec.not_not]

/-! ## The last bits -/

/-- **The last bits of a number are its remainder**, also if it is negative. -/
theorem both_mask (n : Int) (w : Nat) : both n ((2 ^ w - 1 : Nat) : Int) = n % (2 ^ w : Nat) := by
  cases n with
  | ofNat m =>
    have hboth : both (.ofNat m) ((2 ^ w - 1 : Nat) : Int) = (m &&& (2 ^ w - 1) : Nat) := rfl
    rw [hboth, Nat.and_two_pow_sub_one_eq_mod]
    rfl
  | negSucc m =>
    have hboth : both (.negSucc m) ((2 ^ w - 1 : Nat) : Int)
        = ((2 ^ w - 1) ^^^ ((2 ^ w - 1) &&& m) : Nat) := rfl
    have hones : (2 ^ w - 1) ^^^ (m % 2 ^ w) = 2 ^ w - 1 - m % 2 ^ w := by
      have hnot := congrArg BitVec.toNat (@BitVec.allOnes_xor w (BitVec.ofNat w m))
      rwa [BitVec.toNat_xor, BitVec.toNat_allOnes, BitVec.toNat_not, BitVec.toNat_ofNat] at hnot
    have hlt : m % 2 ^ w < 2 ^ w := Nat.mod_lt _ (Nat.two_pow_pos w)
    rw [hboth, Nat.and_comm, Nat.and_two_pow_sub_one_eq_mod, hones,
      Int.negSucc_emod _ (Int.natCast_pos.2 (Nat.two_pow_pos w))]
    omega

/-- **Wrapping takes the signed value of the word that a number ends in.** -/
theorem wrap_eq (n : Int) : wrap n = (BitVec.ofInt 32 n).toInt := by
  let x := BitVec.ofInt 32 n
  have hlow : both n 0xFFFFFFFF = x.toNat := by
    have hmask : both n 0xFFFFFFFF = n % (2 ^ 32 : Nat) := both_mask n 32
    rw [hmask, BitVec.toNat_ofInt, Int.toNat_of_nonneg (Int.emod_nonneg _ (by decide))]
  have hsign : both x.toNat 0x80000000 ≠ 0 ↔ x.msb = true := by
    have hboth : both x.toNat 0x80000000 = (x.toNat &&& 2 ^ 31 : Nat) := rfl
    have hmsb : x.msb = x.toNat.testBit 31 := BitVec.msb_eq_getLsbD_last x
    rw [hboth, Nat.and_two_pow, hmsb]
    cases x.toNat.testBit 31 <;> decide
  rw [wrap, hlow, BitVec.toInt_eq_msb_cond]
  simp only [hsign]
  rfl

theorem count_eq (b : Int) : count b = (b % 32).toNat := by
  have hmask : both b 31 = b % (2 ^ 5 : Nat) := both_mask b 5
  rw [count, hmask]
  rfl

theorem shiftLeft_toInt (x : BitVec 32) (b : Int) :
    shiftLeft x.toInt b = (x <<< (b % 32).toNat).toInt := by
  rw [shiftLeft, count_eq]
  generalize (b % 32).toNat = n
  have hpow : BitVec.ofInt 32 (2 ^ n) = BitVec.twoPow 32 n := by
    have hcast : (2 : Int) ^ n = (2 ^ n : Nat) := (Int.natCast_pow 2 n).symm
    rw [hcast, BitVec.ofInt_natCast, ← BitVec.toNat_inj, BitVec.toNat_ofNat, BitVec.toNat_twoPow]
  rw [wrap_eq, Int.shiftLeft_eq, BitVec.ofInt_mul, BitVec.ofInt_toInt, hpow,
    BitVec.shiftLeft_eq_mul_twoPow]

theorem shiftRight_toInt (x : BitVec 32) (b : Int) :
    shiftRight x.toInt b = (x.sshiftRight (b % 32).toNat).toInt := by
  rw [shiftRight, count_eq, BitVec.toInt_sshiftRight]

end Polish.Word32
