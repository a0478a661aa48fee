import Retrocore.Word
import Retrocore.Text.Hex

/-!
# Signed offsets

A byte that stands for a signed offset is shown in decimal, as the displacement
of an indexed operand, or as the place a relative jump leads to.
-/

namespace Retrocore.Text

/-- The distance of a signed byte from zero. -/
def magnitude (d : Byte) : Nat := if d < 0x80 then d.toNat else 256 - d.toNat

/-- The sign of a signed byte, zero counting as positive. -/
def signMark (d : Byte) : String := if d < 0x80 then "+" else "-"

/-- Signed decimal; only a minus is shown. -/
def signedDecimal (d : Byte) : String :=
  if d < 0x80 then s!"{d.toNat}" else s!"-{magnitude d}"

/-- Signed decimal with its sign always shown. -/
def markedDecimal (d : Byte) : String := s!"{signMark d}{magnitude d}"

/-- Sign and two hexadecimal digits, as in an indexed operand. -/
def markedHex (d : Byte) : String := s!"{signMark d}{hex 2 (magnitude d)}"

/-- The address a two-byte relative jump at `pc` leads to when it is taken. -/
def jumpTarget (pc : Word) (d : Byte) : Word := pc + 2 + signExtend d

/-- Where a relative jump leads: an address if the jump's own address is known,
and otherwise the distance from the start of the jump. -/
def relativeTarget (pc : Option Word) (d : Byte) : String :=
  match pc with
  | some pc => hex16 (jumpTarget pc d)
  | none =>
    if d < 0x80 then s!"$+{hex 1 (d.toNat + 2)}"
    else if d.toNat + 2 < 256 then s!"$-{hex 1 (254 - d.toNat)}"
    else s!"$+{hex 1 (d.toNat + 2 - 256)}"

end Retrocore.Text
