/-!
# Number fields

Numbers are shown in lower-case hexadecimal or in decimal, with leading zeros up
to a least number of digits. `hex` adds the `0x` that marks a hexadecimal
number.
-/

namespace Retrocore.Text

/-- The digits of `n` in the given base, with leading zeros up to `width`
digits. -/
def digits (base width n : Nat) : List Char :=
  let ds := Nat.toDigits base n
  List.replicate (width - ds.length) '0' ++ ds

/-- Lower-case hexadecimal with at least `width` digits and no mark. -/
def bareHex (width n : Nat) : String := String.ofList (digits 16 width n)

/-- Lower-case hexadecimal with at least `width` digits after `0x`. -/
def hex (width n : Nat) : String := "0x" ++ bareHex width n

/-- Decimal with at least `width` digits. -/
def decimal (width n : Nat) : String := String.ofList (digits 10 width n)

/-- A byte as it is shown in operands and messages: `0x` and two digits. -/
def hex8 (n : UInt8) : String := hex 2 n.toNat

/-- A word as it is shown in operands and messages: `0x` and four digits. -/
def hex16 (n : UInt16) : String := hex 4 n.toNat

end Retrocore.Text
