import Retrocore.Arith

/-!
# Flags of the Z80

Eight flags, which fill their byte: `S Z Y H X P/V N C`, high bit first. X and Y
have no documented meaning; they are bits 3 and 5 of some byte that the
instruction had at hand, mostly its result.
-/

namespace Retrocore.Z80

structure Flags where
  sign : Bool := false
  zero : Bool := false
  y : Bool := false
  halfCarry : Bool := false
  x : Bool := false
  /-- Parity after logic, signed overflow after arithmetic. -/
  parity : Bool := false
  /-- Whether the last arithmetic was a subtraction. -/
  subtract : Bool := false
  carry : Bool := false
  deriving DecidableEq, Repr

namespace Flags

def toByte (f : Flags) : Byte :=
  bitByte f.sign <<< 7 ||| bitByte f.zero <<< 6 ||| bitByte f.y <<< 5 ||| bitByte f.halfCarry <<< 4
    ||| bitByte f.x <<< 3 ||| bitByte f.parity <<< 2 ||| bitByte f.subtract <<< 1
    ||| bitByte f.carry

def ofByte (v : Byte) : Flags where
  sign := v.bit 7
  zero := v.bit 6
  y := v.bit 5
  halfCarry := v.bit 4
  x := v.bit 3
  parity := v.bit 2
  subtract := v.bit 1
  carry := v.bit 0

theorem ofByte_toByte (f : Flags) : ofByte f.toByte = f := by
  obtain ⟨s, z, y, h, x, p, n, c⟩ := f
  revert s z y h x p n c
  decide

/-- X and Y from a byte. -/
def withXY (f : Flags) (v : Byte) : Flags := { f with y := v.bit 5, x := v.bit 3 }

/-- Sign, zero, X and Y as a result has them. -/
def withSZXY (f : Flags) (res : Byte) : Flags :=
  { f with sign := isNegative res, zero := res == 0 }.withXY res

/-- Sign, zero, parity, X and Y as a result has them. -/
def withSZPXY (f : Flags) (res : Byte) : Flags :=
  { f.withSZXY res with parity := evenParity res }

def add8 (a b : Byte) (carry : Bool) : Byte × Flags :=
  let res := addBytes a b carry
  let flags : Flags :=
    { halfCarry := Retrocore.halfCarry a b carry
      parity := addOverflows 7 a.toNat b.toNat res.toNat
      subtract := false
      carry := carriesOutOf 7 a.toNat b.toNat carry }
  (res, flags.withSZXY res)

def sub8 (a b : Byte) (borrow : Bool) : Byte × Flags :=
  let res := subBytes a b borrow
  let flags : Flags :=
    { halfCarry := halfBorrow a b borrow
      parity := subOverflows 7 a.toNat b.toNat res.toNat
      subtract := true
      carry := borrowsInto 7 a.toNat b.toNat borrow }
  (res, flags.withSZXY res)

/-- A comparison has the flags of the difference, but X and Y of what is
compared with. -/
def cp8 (a b : Byte) : Flags := (sub8 a b false).2.withXY b

def and8 (a b : Byte) : Byte × Flags :=
  let res := a &&& b
  (res, withSZPXY { halfCarry := true } res)

def or8 (a b : Byte) : Byte × Flags :=
  let res := a ||| b
  (res, withSZPXY {} res)

def xor8 (a b : Byte) : Byte × Flags :=
  let res := a ^^^ b
  (res, withSZPXY {} res)

/-- An operation on the accumulator `a`: its new value and the flags. A
comparison keeps the old. -/
def alu (f : Flags) (op : AluOp) (a v : Byte) : Byte × Flags :=
  match op with
  | .add => add8 a v false
  | .adc => add8 a v f.carry
  | .sub => sub8 a v false
  | .sbc => sub8 a v f.carry
  | .and => and8 a v
  | .xor => xor8 a v
  | .or => or8 a v
  | .cp => (a, cp8 a v)

/-- Counting up leaves the carry alone. -/
def inc8 (f : Flags) (v : Byte) : Byte × Flags :=
  let res := v + 1
  (res,
    { f with halfCarry := v &&& 0x0f == 0x0f, parity := v == 0x7f, subtract := false }.withSZXY res)

/-- Counting down leaves the carry alone. -/
def dec8 (f : Flags) (v : Byte) : Byte × Flags :=
  let res := v - 1
  (res,
    { f with halfCarry := v &&& 0x0f == 0x00, parity := v == 0x80, subtract := true }.withSZXY res)

/-- Adding pairs leaves sign, zero and overflow alone; X and Y come from the
high byte. -/
def add16 (f : Flags) (a b : Word) : Word × Flags :=
  let res := a + b
  (res,
    { f with
      halfCarry := carriesOutOf 11 a.toNat b.toNat false
      subtract := false
      carry := carriesOutOf 15 a.toNat b.toNat false }.withXY (highByte res))

def adc16 (a b : Word) (carry : Bool) : Word × Flags :=
  let res := a + b + bitWord carry
  let flags : Flags :=
    { sign := res.toNat.testBit 15
      zero := res == 0
      halfCarry := carriesOutOf 11 a.toNat b.toNat carry
      parity := addOverflows 15 a.toNat b.toNat res.toNat
      subtract := false
      carry := carriesOutOf 15 a.toNat b.toNat carry }
  (res, flags.withXY (highByte res))

def sbc16 (a b : Word) (borrow : Bool) : Word × Flags :=
  let res := a - b - bitWord borrow
  let flags : Flags :=
    { sign := res.toNat.testBit 15
      zero := res == 0
      halfCarry := borrowsInto 11 a.toNat b.toNat borrow
      parity := subOverflows 15 a.toNat b.toNat res.toNat
      subtract := true
      carry := borrowsInto 15 a.toNat b.toNat borrow }
  (res, flags.withXY (highByte res))

/-- The flags of a rotated accumulator: sign, zero and parity stay. -/
def accumulatorRotate (f : Flags) (res : Byte) (carry : Bool) : Flags :=
  { f with halfCarry := false, subtract := false, carry }.withXY res

/-- The flags of any other rotate or shift. -/
def rotate (res : Byte) (carry : Bool) : Flags :=
  withSZPXY { carry } res

/-- The flags of a bit test. X and Y come from `leak`: the register tested, or
the high byte of the address of the cell tested. -/
def bit (f : Flags) (n : Nat) (v leak : Byte) : Flags :=
  let set := v.bit n
  { f with sign := n == 7 && set, zero := !set, parity := !set, halfCarry := true,
           subtract := false }.withXY leak

/-- The accumulator corrected to two decimal digits after an addition or a
subtraction. -/
def daa (f : Flags) (a : Byte) : Byte × Flags :=
  let low := a &&& 0x0f
  let carry := f.carry || a > 0x99
  let fromHigh : Byte := if carry then 0x60 else 0
  let fromLow : Byte := if f.halfCarry || low > 9 then 0x06 else 0
  let diff := fromHigh ||| fromLow
  let res := if f.subtract then a - diff else a + diff
  let half := if f.subtract then f.halfCarry && low < 6 else low > 9
  (res, { f.withSZPXY res with halfCarry := half, carry })

/-- The flags of the block copy: X and Y are bits 3 and 1 of `leak`. -/
def withBlockXY (f : Flags) (leak : Byte) : Flags := { f with y := leak.bit 1, x := leak.bit 3 }

/-- Whether a condition holds. -/
def satisfy (f : Flags) : Condition → Bool
  | .nz => !f.zero
  | .z => f.zero
  | .nc => !f.carry
  | .c => f.carry
  | .po => !f.parity
  | .pe => f.parity
  | .p => !f.sign
  | .m => f.sign

end Flags

end Retrocore.Z80
