import Retrocore.Decode

/-!
# Carries, parity and rotation

The facts about sums and differences that the flag registers report. Operands
are numbers, so one definition serves both the 8-bit and the 16-bit
instructions; a flag is about the sum through some bit, that is, about the
operands modulo a power of two.
-/

namespace Retrocore

/-- Whether `a + b + carry` carries out of a bit. -/
def carriesOutOf (bit a b : Nat) (carry : Bool) : Bool :=
  let width := Nat.pow 2 (bit + 1)
  width ≤ a % width + b % width + carry.toNat

/-- Whether `a - b - borrow` borrows into the bit above a bit. -/
def borrowsInto (bit a b : Nat) (borrow : Bool) : Bool :=
  let width := Nat.pow 2 (bit + 1)
  a % width < b % width + borrow.toNat

/-- The carry between the halves of a byte. -/
def halfCarry (a b : Byte) (carry : Bool) : Bool := carriesOutOf 3 a.toNat b.toNat carry

/-- The borrow between the halves of a byte. -/
def halfBorrow (a b : Byte) (borrow : Bool) : Bool := borrowsInto 3 a.toNat b.toNat borrow

/-- Whether a sum has the wrong sign: its operands agree on the sign bit, and it
differs. -/
def addOverflows (bit a b res : Nat) : Bool :=
  a.testBit bit == b.testBit bit && a.testBit bit != res.testBit bit

/-- Whether a difference has the wrong sign: its operands differ in the sign
bit, and so does it from the first of them. -/
def subOverflows (bit a b res : Nat) : Bool :=
  a.testBit bit != b.testBit bit && a.testBit bit != res.testBit bit

/-- Whether the number of ones in a byte is even. -/
def evenParity (v : Byte) : Bool :=
  !(v.bit 0 ^^ v.bit 1 ^^ v.bit 2 ^^ v.bit 3 ^^ v.bit 4 ^^ v.bit 5 ^^ v.bit 6 ^^ v.bit 7)

/-- The sign of a byte in two's complement. -/
def isNegative (v : Byte) : Bool := v.bit 7

/-- The sum of two bytes and a carry. -/
def addBytes (a b : Byte) (carry : Bool) : Byte := a + b + bitByte carry

/-- The difference of two bytes less a borrow. -/
def subBytes (a b : Byte) (borrow : Bool) : Byte := a - b - bitByte borrow

theorem toNat_addBytes (a b : Byte) (carry : Bool) :
    (addBytes a b carry).toNat = (a.toNat + b.toNat + carry.toNat) % 256 := by
  simp only [addBytes, UInt8.toNat_add, toNat_bitByte]
  omega

theorem toNat_subBytes (a b : Byte) (borrow : Bool) :
    (subBytes a b borrow).toNat = (a.toNat + 512 - b.toNat - borrow.toNat) % 256 := by
  have hb := b.toNat_lt
  have hborrow := borrow.toNat_le
  simp only [subBytes, UInt8.toNat_sub, toNat_bitByte]
  omega

/-- A byte rotated or shifted by one place, and the bit that leaves it. -/
def RotateOp.apply (op : RotateOp) (carry : Bool) (v : Byte) : Byte × Bool :=
  match op with
  | .rlc => (v <<< 1 ||| v >>> 7, v.bit 7)
  | .rrc => (v >>> 1 ||| v <<< 7, v.bit 0)
  | .rl => (v <<< 1 ||| bitByte carry, v.bit 7)
  | .rr => (v >>> 1 ||| bitByte carry <<< 7, v.bit 0)
  | .sla => (v <<< 1, v.bit 7)
  | .sra => (v >>> 1 ||| (v &&& 0x80), v.bit 0)
  | .sll => (v <<< 1 ||| 1, v.bit 7)
  | .srl => (v >>> 1, v.bit 0)

end Retrocore
