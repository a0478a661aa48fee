import Retrocore.Arith

/-!
# Flags of the 8080

Five flags. As a byte they are `S Z 0 AC 0 P 1 C`, high bit first: the three
bits that are no flags always read the same.
-/

namespace Retrocore.I8080

structure Flags where
  sign : Bool := false
  zero : Bool := false
  auxCarry : Bool := false
  parity : Bool := false
  carry : Bool := false
  deriving DecidableEq, Repr

namespace Flags

def toByte (f : Flags) : Byte :=
  bitByte f.sign <<< 7 ||| bitByte f.zero <<< 6 ||| bitByte f.auxCarry <<< 4
    ||| bitByte f.parity <<< 2 ||| 2 ||| bitByte f.carry

def ofByte (v : Byte) : Flags where
  sign := v.bit 7
  zero := v.bit 6
  auxCarry := v.bit 4
  parity := v.bit 2
  carry := v.bit 0

theorem ofByte_toByte (f : Flags) : ofByte f.toByte = f := by
  obtain ⟨s, z, a, p, c⟩ := f
  revert s z a p c
  decide

/-- Sign, zero and parity as a result has them. -/
def withResult (f : Flags) (res : Byte) : Flags :=
  { f with sign := isNegative res, zero := res == 0, parity := evenParity res }

def add (a b : Byte) (carry : Bool) : Byte × Flags :=
  let res := addBytes a b carry
  let flags : Flags :=
    { auxCarry := halfCarry a b carry, carry := carriesOutOf 7 a.toNat b.toNat carry }
  (res, flags.withResult res)

/-- The difference is formed by adding the complement, so the auxiliary carry is
that of the addition. -/
def sub (a b : Byte) (borrow : Bool) : Byte × Flags :=
  let res := subBytes a b borrow
  let flags : Flags :=
    { auxCarry := halfCarry a (~~~b) !borrow, carry := borrowsInto 7 a.toNat b.toNat borrow }
  (res, flags.withResult res)

/-- The auxiliary carry is the OR of bit 3 of the operands. -/
def and (a b : Byte) : Byte × Flags :=
  let res := a &&& b
  let flags : Flags := { auxCarry := (a ||| b).bit 3 }
  (res, flags.withResult res)

def or (a b : Byte) : Byte × Flags :=
  let res := a ||| b
  (res, withResult {} res)

def xor (a b : Byte) : Byte × Flags :=
  let res := a ^^^ b
  (res, withResult {} res)

/-- Counting up leaves the carry alone. -/
def inc (f : Flags) (v : Byte) : Byte × Flags :=
  let res := v + 1
  (res, { f with auxCarry := halfCarry v 1 false }.withResult res)

/-- Counting down leaves the carry alone. -/
def dec (f : Flags) (v : Byte) : Byte × Flags :=
  let res := v - 1
  (res, { f with auxCarry := halfCarry v (~~~1) true }.withResult res)

/-- An operation on the accumulator `a`: its new value and the flags. A
comparison keeps the old. -/
def alu (f : Flags) (op : AluOp) (a v : Byte) : Byte × Flags :=
  match op with
  | .add => add a v false
  | .adc => add a v f.carry
  | .sub => sub a v false
  | .sbc => sub a v f.carry
  | .and => and a v
  | .xor => xor a v
  | .or => or a v
  | .cp => (a, (sub a v false).2)

/-- The accumulator corrected to two decimal digits after an addition. The
correction goes through the adder, and a carry once set stays set. -/
def daa (f : Flags) (a : Byte) : Byte × Flags :=
  let low := a &&& 0x0f
  let high := a >>> 4
  let fromLow : Byte := if f.auxCarry || low > 9 then 0x06 else 0
  let carry := f.carry || high > 9 || (high ≥ 9 && low > 9)
  let fromHigh : Byte := if carry then 0x60 else 0
  let (res, flags) := add a (fromLow ||| fromHigh) false
  (res, { flags with carry })

/-- Whether a condition holds. -/
def satisfy (f : Flags) : Condition → Bool
  | .nz => !f.zero
  | .z => f.zero
  | .nc => !f.carry
  | .c => f.carry
  | .po => !f.parity
  | .pe => f.parity
  | .p => !f.sign
  | .m => f.sign

end Flags

end Retrocore.I8080
