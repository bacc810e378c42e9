import Polish.Number.Binary64

/-!
# Doubles as 32-bit words

The bitwise operators are those of whole numbers of any size, where a negative number has infinitely
many ones before its first zero.  The operands are doubles cut down to signed numbers of 32 bits:
the fraction is dropped, and of what is left the last 32 bits count.  An operand that is not finite
counts as zero.

`ofFloat` is the cut, `_int32`; `both` and `either` are the two bitwise operators, and `shiftLeft`
and `shiftRight` are the shifts with the counts that `_shl` and `_shr` allow, modulo 32.  That all
of them are operations on words, `BitVec 32`, is `Binary.bitwise_exact`.
-/

set_option autoImplicit false

namespace Polish.Word32

/-! ## Whole numbers of any size -/

/-- The bits that two whole numbers have in common. -/
def both : Int → Int → Int
  | .ofNat m, .ofNat n => (m &&& n : Nat)
  | .ofNat m, .negSucc n => (m ^^^ (m &&& n) : Nat)
  | .negSucc m, .ofNat n => (n ^^^ (n &&& m) : Nat)
  | .negSucc m, .negSucc n => .negSucc (m ||| n)

/-- The bits that one or the other of two whole numbers has. -/
def either (a b : Int) : Int := ~~~ both (~~~ a) (~~~ b)

/-! ## Signed numbers of 32 bits -/

/-- The signed number of 32 bits that ends as a whole number does. -/
def wrap (n : Int) : Int :=
  let low := both n 0xFFFFFFFF
  if both low 0x80000000 ≠ 0 then low - 0x100000000 else low

/-- The signed number of 32 bits that a double stands for. -/
def ofFloat (x : Float) : Int := if x.isFinite then wrap (Binary64.truncate x) else 0

/-- The shift count that an operand stands for: its last five bits. -/
def count (b : Int) : Nat := (both b 31).toNat

def shiftLeft (a b : Int) : Int := wrap (a <<< count b)

/-- Shifts right and keeps the sign. -/
def shiftRight (a b : Int) : Int := a >>> count b

end Polish.Word32
