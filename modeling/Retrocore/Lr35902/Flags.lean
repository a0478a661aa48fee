import Retrocore.Arith

/-!
# Flags of the LR35902

Four flags. As a byte they are `Z N H C 0 0 0 0`, high bit first.
-/

namespace Retrocore.Lr35902

structure Flags where
  zero : Bool := false
  subtract : Bool := false
  halfCarry : Bool := false
  carry : Bool := false
  deriving DecidableEq, Repr

namespace Flags

def toByte (f : Flags) : Byte :=
  bitByte f.zero <<< 7 ||| bitByte f.subtract <<< 6 ||| bitByte f.halfCarry <<< 5
    ||| bitByte f.carry <<< 4

def ofByte (v : Byte) : Flags where
  zero := v.bit 7
  subtract := v.bit 6
  halfCarry := v.bit 5
  carry := v.bit 4

theorem ofByte_toByte (f : Flags) : ofByte f.toByte = f := by
  obtain ⟨z, n, h, c⟩ := f
  revert z n h c
  decide

def add8 (a b : Byte) (carry : Bool) : Byte × Flags :=
  let res := addBytes a b carry
  (res, ⟨res == 0, false, Retrocore.halfCarry a b carry, carriesOutOf 7 a.toNat b.toNat carry⟩)

def sub8 (a b : Byte) (borrow : Bool) : Byte × Flags :=
  let res := subBytes a b borrow
  (res, ⟨res == 0, true, halfBorrow a b borrow, borrowsInto 7 a.toNat b.toNat borrow⟩)

def and8 (a b : Byte) : Byte × Flags :=
  let res := a &&& b
  (res, ⟨res == 0, false, true, false⟩)

/-- The flags of OR, XOR and SWAP. -/
def logical (res : Byte) : Flags := ⟨res == 0, false, false, false⟩

/-- An operation on the accumulator `a`: its new value and the flags. A
comparison keeps the old. -/
def alu (f : Flags) (op : AluOp) (a v : Byte) : Byte × Flags :=
  match op with
  | .add => add8 a v false
  | .adc => add8 a v f.carry
  | .sub => sub8 a v false
  | .sbc => sub8 a v f.carry
  | .and => and8 a v
  | .xor => (a ^^^ v, logical (a ^^^ v))
  | .or => (a ||| v, logical (a ||| v))
  | .cp => (a, (sub8 a v false).2)

/-- Counting up leaves the carry alone. -/
def inc8 (f : Flags) (v : Byte) : Byte × Flags :=
  let res := v + 1
  (res, { f with zero := res == 0, subtract := false, halfCarry := v &&& 0x0f == 0x0f })

/-- Counting down leaves the carry alone. -/
def dec8 (f : Flags) (v : Byte) : Byte × Flags :=
  let res := v - 1
  (res, { f with zero := res == 0, subtract := true, halfCarry := v &&& 0x0f == 0x00 })

/-- Adding pairs leaves the zero flag alone. -/
def add16 (f : Flags) (a b : Word) : Word × Flags :=
  (a + b,
    { f with
      subtract := false
      halfCarry := carriesOutOf 11 a.toNat b.toNat false
      carry := carriesOutOf 15 a.toNat b.toNat false })

/-- A signed offset added to the stack pointer; the carries are those of the low
bytes. -/
def addSp (sp : Word) (e : Byte) : Word × Flags :=
  let offset := signExtend e
  (sp + offset,
    ⟨false, false, carriesOutOf 3 sp.toNat offset.toNat false,
      carriesOutOf 7 sp.toNat offset.toNat false⟩)

/-- The flags of a rotated accumulator. -/
def accumulatorRotate (carry : Bool) : Flags := ⟨false, false, false, carry⟩

/-- The flags of any other rotate or shift. -/
def rotate (res : Byte) (carry : Bool) : Flags := ⟨res == 0, false, false, carry⟩

/-- The flags of a bit test. -/
def bit (f : Flags) (n : Nat) (v : Byte) : Flags :=
  { f with zero := !v.bit n, subtract := false, halfCarry := true }

/-- The accumulator corrected to two decimal digits after an addition or a
subtraction. -/
def daa (f : Flags) (a : Byte) : Byte × Flags :=
  let (res, carry) :=
    if f.subtract then
      let fromHigh : Byte := if f.carry then 0x60 else 0
      let fromLow : Byte := if f.halfCarry then 0x06 else 0
      (a - fromHigh - fromLow, f.carry)
    else
      let carry := f.carry || a > 0x99
      let fromHigh : Byte := if carry then 0x60 else 0
      let fromLow : Byte := if f.halfCarry || a &&& 0x0f > 9 then 0x06 else 0
      (a + fromHigh + fromLow, carry)
  (res, { f with zero := res == 0, halfCarry := false, carry })

/-- Whether a condition holds. The conditions on sign and parity have no
encoding and never hold. -/
def satisfy (f : Flags) : Condition → Bool
  | .nz => !f.zero
  | .z => f.zero
  | .nc => !f.carry
  | .c => f.carry
  | .po | .pe | .p | .m => false

end Flags

end Retrocore.Lr35902
