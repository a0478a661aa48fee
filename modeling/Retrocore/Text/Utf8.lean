import Retrocore.Word

/-!
# Bytes as text

Bytes that a machine printed are read as UTF-8. Where they are not, each longest
part that could still have become a character is shown as one replacement
character.
-/

namespace Retrocore.Text

/-- Shown in the place of bytes that are not text. -/
def replacement : Char := Char.ofNat 0xfffd

/-- What a first byte promises: the bits it holds, how many bytes follow, and
the bounds of the next one. Later bytes always have the bounds `80` and `bf`. -/
def leadByte (b : Byte) : Option (Nat × Nat × Byte × Byte) :=
  if b < 0x80 then some (b.toNat, 0, 0x80, 0xbf)
  else if b < 0xc2 then none
  else if b < 0xe0 then some (b.toNat % 32, 1, 0x80, 0xbf)
  else if b < 0xf0 then
    some (b.toNat % 16, 2, if b = 0xe0 then 0xa0 else 0x80, if b = 0xed then 0x9f else 0xbf)
  else if b < 0xf5 then
    some (b.toNat % 8, 3, if b = 0xf0 then 0x90 else 0x80, if b = 0xf4 then 0x8f else 0xbf)
  else none

/-- Reads the given number of further bytes: the character number if they are
all there, and what is left. -/
def followBytes (acc : Nat) : Nat → Byte → Byte → List Byte → Option Nat × List Byte
  | 0, _, _, rest => (some acc, rest)
  | _ + 1, _, _, [] => (none, [])
  | n + 1, low, high, b :: rest =>
    if low ≤ b ∧ b ≤ high then followBytes (acc * 64 + b.toNat % 64) n 0x80 0xbf rest
    else (none, b :: rest)

/-- Reading on consumes bytes and makes none. -/
theorem length_followBytes (acc n : Nat) (low high : Byte) (bytes : List Byte) :
    (followBytes acc n low high bytes).2.length ≤ bytes.length := by
  fun_induction followBytes acc n low high bytes <;> simp_all
  omega

/-- The characters that bytes stand for. -/
def lossyChars : List Byte → List Char
  | [] => []
  | b :: bytes =>
    match leadByte b with
    | none => replacement :: lossyChars bytes
    | some (acc, n, low, high) =>
      let read := followBytes acc n low high bytes
      read.1.elim replacement Char.ofNat :: lossyChars read.2
  termination_by bytes => bytes.length
  decreasing_by
    · exact Nat.lt_succ_self _
    · exact Nat.lt_succ_of_le (length_followBytes acc n low high bytes)

/-- The text that bytes stand for. -/
def lossy (bytes : List Byte) : String := String.ofList (lossyChars bytes)

/-- The bytes of a text. -/
def utf8 (s : String) : List Byte := s.toUTF8.toList

end Retrocore.Text
