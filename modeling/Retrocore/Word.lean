/-!
# Bytes and words

Every machine here works on 8-bit bytes and 16-bit words whose arithmetic wraps.
This file names the two widths, splits and joins them, and reads and writes
single bits.
-/

namespace Retrocore

/-- Eight bits; arithmetic wraps. -/
abbrev Byte := UInt8

/-- Sixteen bits; arithmetic wraps. -/
abbrev Word := UInt16

/-- The word with the given high and low bytes. -/
def wordOf (high low : Byte) : Word := high.toUInt16 * 256 + low.toUInt16

def highByte (w : Word) : Byte := (w / 256).toUInt8

def lowByte (w : Word) : Byte := w.toUInt8

/-- A byte read as a two's complement offset, widened to a word. -/
def signExtend (d : Byte) : Word :=
  if d < 0x80 then d.toUInt16 else wordOf 0xff d

/-- The byte `0` or `1`. -/
def bitByte (b : Bool) : Byte := if b then 1 else 0

/-- The word `0` or `1`. -/
def bitWord (b : Bool) : Word := if b then 1 else 0

/-- Bit `i` of a byte, bit 0 being the lowest. -/
def Byte.bit (v : Byte) (i : Nat) : Bool := v.toNat.testBit i

/-- The byte with bit `i` set or cleared. -/
def Byte.withBit (v : Byte) (i : Nat) (b : Bool) : Byte :=
  let mask : Byte := 1 <<< UInt8.ofNat i
  if b then v ||| mask else v &&& ~~~mask

/-- Bit `i` of a word, bit 0 being the lowest. -/
def Word.bit (v : Word) (i : Nat) : Bool := v.toNat.testBit i

/-- The word with bit `i` set or cleared. -/
def Word.withBit (v : Word) (i : Nat) (b : Bool) : Word :=
  let mask : Word := 1 <<< UInt16.ofNat i
  if b then v ||| mask else v &&& ~~~mask

/-- Little-endian words out of bytes; an odd last byte is left out. -/
def wordsOfBytes : List Byte → List Word
  | low :: high :: rest => wordOf high low :: wordsOfBytes rest
  | _ => []

@[simp] theorem toNat_bitByte (b : Bool) : (bitByte b).toNat = b.toNat := by
  cases b <;> rfl

/-! ## Joining and splitting -/

/-- The high byte counts by 256. -/
theorem toNat_wordOf (high low : Byte) :
    (wordOf high low).toNat = 256 * high.toNat + low.toNat := by
  have h := high.toNat_lt
  have l := low.toNat_lt
  simp [wordOf]
  omega

theorem toNat_highByte (w : Word) : (highByte w).toNat = w.toNat / 256 := by
  have h := w.toNat_lt
  simp [highByte]
  omega

theorem toNat_lowByte (w : Word) : (lowByte w).toNat = w.toNat % 256 := by
  simp [lowByte]

@[simp] theorem highByte_wordOf (high low : Byte) : highByte (wordOf high low) = high := by
  have l := low.toNat_lt
  apply UInt8.toNat_inj.mp
  rw [toNat_highByte, toNat_wordOf]
  omega

@[simp] theorem lowByte_wordOf (high low : Byte) : lowByte (wordOf high low) = low := by
  have l := low.toNat_lt
  apply UInt8.toNat_inj.mp
  rw [toNat_lowByte, toNat_wordOf]
  omega

@[simp] theorem wordOf_highByte_lowByte (w : Word) : wordOf (highByte w) (lowByte w) = w := by
  apply UInt16.toNat_inj.mp
  rw [toNat_wordOf, toNat_highByte, toNat_lowByte]
  omega

end Retrocore
