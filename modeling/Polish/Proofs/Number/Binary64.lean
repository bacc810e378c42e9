import Mathlib
import Polish.Number.Binary64

/-!
# What doubles stand for

A finite double stands for a rational number, `Binary64.value`, which is read off the sign, the
significand and the exponent that the language itself takes out of its bits.  The functions on
doubles see the bits as one whole number instead:

* `Binary64.value_decode` — the parts that they read are those of the value;
* `Binary64.truncate_eq` — cutting off the fraction is cutting the value down towards zero;
* `Binary64.value_ofInt` — a whole number of up to 53 bits is a double exactly.

## How the proof goes

`Float` gives nothing away but its bits, and what the language itself makes of these.  The fields of
the bits are compared first, as slices of a word on the one side and as quotients and remainders of
a number on the other.  From there on the parts of a double are whole numbers, and its value is a
product of one of them and a power of two.

For whole numbers the way goes back: the number is moved up until its first digit is on the place of
the hidden bit, nothing is rounded since it has at most 53 digits, and the double made of these bits
is decoded to the number again.
-/

set_option autoImplicit false

namespace Polish

open Float.Model (Format UnpackedFloat)
open Float.Model.UnpackedFloat (Sign unpackMantissa unpackExponent unpackSign)

/-- The number that the parts of a double stand for. -/
def Dyadic.value (x : Dyadic) : ℚ :=
  (if x.negative then -1 else 1) * (x.significand * 2 ^ x.exponent)

namespace Binary64

/-! ## The value of a double -/

/-- The number that unpacked parts stand for; zero if they are not those of a number. -/
def unpackedValue : UnpackedFloat → ℚ
  | .finite sign significand exponent _ => sign.apply significand * 2 ^ exponent
  | _ => 0

/-- The number that a double stands for; zero if it is infinite or no number. -/
def value (x : Float) : ℚ := unpackedValue x.toModel.unpack

/-! ## The fields of the bits -/

section Fields

variable (b : BitVec Format.binary64.numBits)

theorem toNat_unpackMantissa : (unpackMantissa b).toNat = b.toNat % hiddenBit := by
  rw [UnpackedFloat.unpackMantissa_def, BitVec.extractLsb'_toNat, Nat.shiftRight_zero]
  rfl

theorem toNat_unpackExponent : (unpackExponent b).toNat = b.toNat / hiddenBit % 0x800 := by
  rw [UnpackedFloat.unpackExponent_def, BitVec.extractLsb'_toNat, Nat.shiftRight_eq_div_pow]
  rfl

theorem toNat_unpackSign : (unpackSign b).toNat = b.toNat / signBit := by
  have hlt : b.toNat / signBit < 2 := Nat.div_lt_of_lt_mul b.isLt
  rw [UnpackedFloat.unpackSign_def, BitVec.extractLsb'_toNat, Nat.shiftRight_eq_div_pow]
  exact Nat.mod_eq_of_lt hlt

theorem unpackMantissa_eq_zero_iff : unpackMantissa b = 0#_ ↔ b.toNat % hiddenBit = 0 := by
  rw [← BitVec.toNat_inj, toNat_unpackMantissa, BitVec.toNat_zero]

theorem unpackExponent_eq_zero_iff : unpackExponent b = 0#_ ↔ b.toNat / hiddenBit % 0x800 = 0 := by
  rw [← BitVec.toNat_inj, toNat_unpackExponent, BitVec.toNat_zero]

theorem unpackExponent_eq_ones_iff :
    unpackExponent b = -1#_ ↔ b.toNat / hiddenBit % 0x800 = 0x7FF := by
  rw [← BitVec.toNat_inj, toNat_unpackExponent, BitVec.neg_one_eq_allOnes, BitVec.toNat_allOnes]
  rfl

theorem apply_unpackSign (n : Nat) :
    ((Sign.ofBitVec (unpackSign b)).apply n : ℚ)
      = (if b.toNat / signBit == 1 then -1 else 1) * n := by
  have hlt : b.toNat / signBit < 2 := Nat.div_lt_of_lt_mul b.isLt
  have hzero : unpackSign b = 0#1 ↔ b.toNat / signBit = 0 := by
    rw [← BitVec.toNat_inj, toNat_unpackSign, BitVec.toNat_zero]
  rw [Sign.ofBitVec]
  by_cases h : b.toNat / signBit = 0
  · simp [hzero, h, Sign.apply]
  · have hone : b.toNat / signBit = 1 := Nat.eq_of_le_of_lt_succ (Nat.pos_of_ne_zero h) hlt
    simp [hzero, hone, Sign.apply]

theorem toNat_one_append {w : Nat} (v : BitVec w) : (1#1 ++ v).toNat = v.toNat + 2 ^ w := by
  rw [BitVec.toNat_append, ← Nat.shiftLeft_add_eq_or_of_lt v.isLt, Nat.shiftLeft_eq]
  simp [Nat.add_comm]

/-! ## Unpacking -/

theorem isFinite_unpack :
    (UnpackedFloat.unpack .binary64 b).isFinite = true
      ↔ b.toNat / hiddenBit % 0x800 ≠ 0x7FF := by
  rw [Ne, ← unpackExponent_eq_ones_iff, UnpackedFloat.unpack]
  by_cases h : unpackExponent b = -1#_
  · rw [if_pos h]
    refine iff_of_false ?_ (not_not_intro h)
    split <;> exact Bool.false_ne_true
  · rw [if_neg h]
    refine iff_of_true ?_ h
    split <;> [split; skip] <;> rfl

theorem unpackedValue_subnormal (h : b.toNat / hiddenBit % 0x800 = 0) :
    unpackedValue (UnpackedFloat.unpack .binary64 b)
      = (if b.toNat / signBit == 1 then -1 else 1)
        * ((b.toNat % hiddenBit : Nat) * 2 ^ (-1074 : Int)) := by
  have hzero := (unpackExponent_eq_zero_iff b).2 h
  have hones : unpackExponent b ≠ -1#_ := by rw [hzero]; decide
  rw [UnpackedFloat.unpack, if_neg hones, if_pos hzero]
  split
  · next hfraction =>
    rw [(unpackMantissa_eq_zero_iff b).1 hfraction]
    simp [unpackedValue]
  · rw [unpackedValue, apply_unpackSign, toNat_unpackMantissa, hzero, mul_assoc]
    rfl

theorem unpackedValue_normal (h : b.toNat / hiddenBit % 0x800 ≠ 0)
    (hfull : b.toNat / hiddenBit % 0x800 ≠ 0x7FF) :
    unpackedValue (UnpackedFloat.unpack .binary64 b)
      = (if b.toNat / signBit == 1 then -1 else 1)
        * ((b.toNat % hiddenBit + hiddenBit : Nat)
          * 2 ^ (((b.toNat / hiddenBit % 0x800 : Nat) : Int) - 1075)) := by
  have hzero := mt (unpackExponent_eq_zero_iff b).1 h
  have hones := mt (unpackExponent_eq_ones_iff b).1 hfull
  rw [UnpackedFloat.unpack, if_neg hones, if_neg hzero, unpackedValue, apply_unpackSign,
    toNat_one_append, toNat_unpackMantissa, toNat_unpackExponent, mul_assoc]
  rfl

end Fields

/-- A double is finite unless its exponent field is full. -/
theorem isFinite_iff {x : Float} :
    x.isFinite = true ↔ x.toBits.toNat / hiddenBit % 0x800 ≠ 0x7FF :=
  isFinite_unpack x.toBits.toBitVec

/-- **The parts that the bits are decoded to are those of the value.** -/
theorem value_decode {x : Float} (hx : x.isFinite = true) : value x = (decode x).value := by
  have hfull := isFinite_iff.1 hx
  by_cases h : x.toBits.toNat / hiddenBit % 0x800 = 0
  · have hvalue := unpackedValue_subnormal x.toBits.toBitVec h
    rw [Dyadic.value, decode, if_pos h, if_pos h]
    exact hvalue
  · have hvalue := unpackedValue_normal x.toBits.toBitVec h hfull
    rw [Dyadic.value, decode, if_neg h, if_neg h]
    exact hvalue

/-- A double keeps the bits that it is made from unless their exponent field is full. -/
theorem toBits_ofBits {bits : UInt64} (hfull : bits.toNat / hiddenBit % 0x800 ≠ 0x7FF) :
    (Float.ofBits bits).toBits = bits := by
  let b : BitVec Format.binary64.numBits := bits.toBitVec
  have hnumber : UnpackedFloat.isNaNBits b = false :=
    decide_eq_false fun hnan => hfull ((unpackExponent_eq_ones_iff b).1 hnan.1)
  have hpack : UnpackedFloat.pack .binary64 (UnpackedFloat.unpack .binary64 b) = b := by
    rw [UnpackedFloat.pack_unpack, hnumber, if_neg Bool.false_ne_true]
  exact congrArg UInt64.ofBitVec hpack

/-! ## Cutting off the fraction -/

/-- A number cut down towards zero. -/
def cut (q : ℚ) : ℤ := if 0 ≤ q then ⌊q⌋ else ⌈q⌉

theorem cut_intCast (n : ℤ) : cut n = n := by
  rw [cut, Int.floor_intCast, Int.ceil_intCast, ite_self]

theorem cut_neg (q : ℚ) : cut (-q) = -cut q := by
  rcases lt_trichotomy q 0 with h | rfl | h
  · rw [cut, cut, if_pos (by linarith), if_neg (by linarith), Int.floor_neg]
  · rfl
  · rw [cut, cut, if_neg (by linarith), if_pos h.le, Int.ceil_neg]

theorem cut_div (m n : Nat) : cut (m / n) = (m / n : Nat) := by
  rw [cut, if_pos (by positivity), Rat.floor_natCast_div_natCast, Int.natCast_div]

/-- The digits before the point, by a shift to the left or to the right. -/
theorem cut_mul_zpow (n : Nat) (e : Int) :
    cut (n * 2 ^ e) = (if 0 ≤ e then n <<< e.toNat else n >>> (-e).toNat : Nat) := by
  split
  · next h =>
    obtain ⟨k, rfl⟩ := Int.eq_ofNat_of_zero_le h
    have hwhole : (n : ℚ) * 2 ^ (k : Int) = ((n * 2 ^ k : Nat) : Int) := by
      rw [zpow_natCast]
      push_cast
      rfl
    rw [hwhole, cut_intCast, Int.toNat_natCast, Nat.shiftLeft_eq]
  · next h =>
    obtain ⟨k, hk⟩ := Int.eq_ofNat_of_zero_le (by omega : 0 ≤ -e)
    have hquotient : (n : ℚ) * 2 ^ e = n / (2 ^ k : Nat) := by
      rw [← neg_neg e, hk, zpow_neg, zpow_natCast, div_eq_mul_inv, Nat.cast_pow]
      rfl
    rw [hquotient, cut_div, hk, Int.toNat_natCast, Nat.shiftRight_eq_div_pow]

/-- **Without its fraction** a finite double is its value cut down towards zero. -/
theorem truncate_eq {x : Float} (hx : x.isFinite = true) : truncate x = cut (value x) := by
  rw [value_decode hx, Dyadic.value, truncate]
  cases (decode x).negative with
  | false => rw [if_neg Bool.false_ne_true, if_neg Bool.false_ne_true, one_mul, cut_mul_zpow]
  | true => rw [if_pos rfl, if_pos rfl, neg_one_mul, cut_neg, cut_mul_zpow]

/-! ## Whole numbers -/

theorem toNat_ofMagnitude (negative : Bool) {magnitude : Nat} (h : magnitude < infinityBits) :
    (ofMagnitude negative magnitude).toBits.toNat
      = (if negative then signBit else 0) + magnitude := by
  have hsign : (if negative then signBit else 0) = 0 ∨
      (if negative then signBit else 0) = signBit := by cases negative <;> simp
  rw [ofMagnitude]
  generalize (if negative then signBit else 0) = sign at *
  rw [infinityBits] at h
  rw [signBit] at hsign
  have hbits : (UInt64.ofNat (sign + magnitude)).toNat = sign + magnitude := by
    rw [UInt64.toNat_ofNat']
    exact Nat.mod_eq_of_lt (by omega)
  have hfull : (UInt64.ofNat (sign + magnitude)).toNat / hiddenBit % 0x800 ≠ 0x7FF := by
    rw [hbits, hiddenBit]
    omega
  rw [toBits_ofBits hfull, hbits]

theorem roundDiv_one (n : Nat) : roundDiv n 1 = n := by
  rw [roundDiv, Nat.div_one, Nat.mod_one]
  rfl

/-- The last place of a whole number below `2 ^ 53` puts its first binary digit on the place of
the hidden bit. -/
theorem lastPlace_one {n : Nat} (hpos : 0 < n) : lastPlace n 1 = n.log2 - 52 := by
  have hle : 1 <<< n.log2 ≤ n := by
    rw [Nat.shiftLeft_eq, Nat.one_mul]
    exact Nat.log2_self_le hpos.ne'
  have hguess : (n.log2 : Int) - (1 : Nat).log2 = n.log2 := by
    rw [show (1 : Nat).log2 = 0 from rfl]
    omega
  rw [lastPlace, hguess, scaleRatio, if_pos (Int.natCast_nonneg _), Int.toNat_natCast]
  simp only [if_pos hle]
  omega

/-- A whole number below `2 ^ 53` moved up to the place of the hidden bit. -/
theorem shiftLeft_log2 {n : Nat} (hpos : 0 < n) (hlt : n < 2 * hiddenBit) :
    hiddenBit ≤ n <<< (52 - n.log2) ∧ n <<< (52 - n.log2) < 2 * hiddenBit := by
  have hplaces : n.log2 < 53 := (Nat.log2_lt hpos.ne').2 hlt
  have hsum : 2 ^ n.log2 * 2 ^ (52 - n.log2) = hiddenBit := by
    rw [← Nat.pow_add, show n.log2 + (52 - n.log2) = 52 by omega]
    rfl
  rw [Nat.shiftLeft_eq]
  constructor
  · calc hiddenBit = 2 ^ n.log2 * 2 ^ (52 - n.log2) := hsum.symm
      _ ≤ n * 2 ^ (52 - n.log2) := Nat.mul_le_mul_right _ (Nat.log2_self_le hpos.ne')
  · calc n * 2 ^ (52 - n.log2)
        < 2 ^ (n.log2 + 1) * 2 ^ (52 - n.log2) :=
          Nat.mul_lt_mul_of_pos_right Nat.lt_log2_self (Nat.two_pow_pos _)
      _ = 2 * hiddenBit := by rw [Nat.pow_succ, Nat.mul_right_comm, hsum, Nat.mul_comm]

/-- The magnitude of a whole number below `2 ^ 53` is not rounded. -/
theorem magnitudeOfRatio_one {n : Nat} (hpos : 0 < n) (hlt : n < 2 * hiddenBit) :
    magnitudeOfRatio n 1 = (n.log2 + 1022) * hiddenBit + n <<< (52 - n.log2) := by
  have hplaces : n.log2 < 53 := (Nat.log2_lt hpos.ne').2 hlt
  have hscale : scaleRatio n 1 (n.log2 - 52) = (n <<< (52 - n.log2), 1) := by
    rw [scaleRatio]
    split
    · next h =>
      obtain h52 : n.log2 = 52 := by omega
      rw [h52]
      rfl
    · rw [show (-((n.log2 : Int) - 52)).toNat = 52 - n.log2 by omega]
  have hplace : ((n.log2 : Int) - 52 + 1074).toNat = n.log2 + 1022 := by omega
  have hfits := (shiftLeft_log2 hpos hlt).2
  rw [magnitudeOfRatio, if_neg hpos.ne']
  simp only [lastPlace_one hpos, hscale, roundDiv_one, hplace]
  rw [Nat.min_eq_left]
  rw [infinityBits]
  rw [hiddenBit] at *
  omega

/-- The value of a double made of a sign, an exponent field and a fraction. -/
theorem value_ofMagnitude (negative : Bool) {field fraction : Nat} (hpos : 0 < field)
    (hfield : field < 0x7FF) (hfraction : fraction < hiddenBit) :
    (ofMagnitude negative (field * hiddenBit + fraction)).isFinite = true ∧
      value (ofMagnitude negative (field * hiddenBit + fraction))
        = (if negative then -1 else 1)
          * ((fraction + hiddenBit : Nat) * 2 ^ ((field : Int) - 1075)) := by
  have hbits : (ofMagnitude negative (field * hiddenBit + fraction)).toBits.toNat
      = (if negative then signBit else 0) + (field * hiddenBit + fraction) :=
    toNat_ofMagnitude negative (by rw [infinityBits, hiddenBit] at *; omega)
  generalize ofMagnitude negative (field * hiddenBit + fraction) = x at *
  have hx : x.toBits.toNat / hiddenBit % 0x800 = field ∧ x.toBits.toNat % hiddenBit = fraction ∧
      (x.toBits.toNat / signBit == 1) = negative := by
    rw [hbits]
    rw [hiddenBit] at *
    cases negative
    · rw [if_neg Bool.false_ne_true, signBit, beq_eq_false_iff_ne]
      omega
    · rw [if_pos rfl, signBit, beq_iff_eq]
      omega
  obtain ⟨hexponent, hrest, hnegative⟩ := hx
  have hfinite : x.isFinite = true := isFinite_iff.2 (by omega)
  refine ⟨hfinite, ?_⟩
  rw [value_decode hfinite, Dyadic.value, decode, hexponent, hrest, hnegative, if_neg hpos.ne',
    if_neg hpos.ne']

theorem sign_mul_natAbs (n : Int) :
    (if decide (n < 0) then -1 else 1) * (n.natAbs : ℚ) = n := by
  rw [← Int.cast_natCast, Int.natCast_natAbs]
  by_cases h : n < 0
  · simp [h, abs_of_neg]
  · simp [h, abs_of_nonneg (not_lt.1 h)]

/-- **A whole number of up to 53 bits is a double exactly.** -/
theorem value_ofInt {n : Int} (hlt : n.natAbs < 2 * hiddenBit) :
    (ofInt n).isFinite = true ∧ value (ofInt n) = n := by
  rw [ofInt, ofRatio]
  rcases Nat.eq_zero_or_pos n.natAbs with hzero | hpos
  -- zero has no first digit that could be hidden, so its exponent field is empty
  · obtain rfl := Int.natAbs_eq_zero.1 hzero
    have hbits : (ofMagnitude false 0).toBits.toNat = 0 := toNat_ofMagnitude false (by decide)
    have hfinite : (ofMagnitude false 0).isFinite = true := isFinite_iff.2 (by rw [hbits]; decide)
    have hparts : decode (ofMagnitude false 0) = ⟨false, 0, -1074⟩ := by
      rw [decode, hbits]
      rfl
    refine ⟨hfinite, (value_decode hfinite).trans ?_⟩
    rw [hparts, Dyadic.value, Nat.cast_zero, zero_mul, mul_zero, Int.cast_zero]
  · obtain ⟨hlo, hhi⟩ := shiftLeft_log2 hpos hlt
    have hplaces : n.natAbs.log2 < 53 := (Nat.log2_lt hpos.ne').2 hlt
    -- the first digit is the hidden bit and counts as one more in the exponent field
    have hmagnitude : magnitudeOfRatio n.natAbs 1 = (n.natAbs.log2 + 1023) * hiddenBit
        + (n.natAbs <<< (52 - n.natAbs.log2) - hiddenBit) := by
      rw [magnitudeOfRatio_one hpos hlt]
      rw [hiddenBit] at *
      omega
    obtain ⟨hfinite, hvalue⟩ := value_ofMagnitude (decide (n < 0))
      (by omega : 0 < n.natAbs.log2 + 1023) (by omega)
      (by omega : n.natAbs <<< (52 - n.natAbs.log2) - hiddenBit < hiddenBit)
    have hplace :
        ((52 - n.natAbs.log2 : Nat) : Int) + ((n.natAbs.log2 + 1023 : Nat) - 1075) = 0 := by
      omega
    rw [hmagnitude]
    refine ⟨hfinite, hvalue.trans ?_⟩
    rw [Nat.sub_add_cancel hlo, Nat.shiftLeft_eq, Nat.cast_mul, Nat.cast_pow, Nat.cast_ofNat,
      ← zpow_natCast, mul_assoc, ← zpow_add₀ two_ne_zero, hplace, zpow_zero, mul_one,
      sign_mul_natAbs]

end Binary64

end Polish
