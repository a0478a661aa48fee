import Retrocore.Decode

/-!
# Instructions of the Little Man Computer

An instruction is one number from 0 to 999: its hundreds say what to do and the
rest names a mailbox.
-/

namespace Retrocore.Lmc

/-- The number of mailboxes. -/
def mailboxes : Nat := 100

/-- The largest number that a mailbox is meant to hold. -/
def maxValue : Word := 999

inductive Instruction where
  | hlt
  /-- A number below 100 other than 0: data, though it halts when it is run. -/
  | dat (value : Word)
  | add (box : Byte)
  | sub (box : Byte)
  | sta (box : Byte)
  | lda (box : Byte)
  | bra (box : Byte)
  | brz (box : Byte)
  | brp (box : Byte)
  | inp
  | out
  | otc
  deriving DecidableEq, Repr

/-- A mailbox number as it is written: at least two decimal digits. -/
def boxText (box : Byte) : String := Text.decimal 2 box.toNat

def Instruction.text : Instruction → String
  | hlt => "hlt"
  | dat n => s!"dat {n.toNat}"
  | add box => s!"add {boxText box}"
  | sub box => s!"sub {boxText box}"
  | sta box => s!"sta {boxText box}"
  | lda box => s!"lda {boxText box}"
  | bra box => s!"bra {boxText box}"
  | brz box => s!"brz {boxText box}"
  | brp box => s!"brp {boxText box}"
  | inp => "inp"
  | out => "out"
  | otc => "otc"

/-- The instruction that a number stands for. -/
def Instruction.ofWord? (word : Word) : Option Instruction :=
  if maxValue < word then none
  else
    let box := (word % 100).toUInt8
    match (word / 100).toNat with
    | 0 => if box = 0 then some .hlt else some (.dat word)
    | 1 => some (.add box)
    | 2 => some (.sub box)
    | 3 => some (.sta box)
    | 5 => some (.lda box)
    | 6 => some (.bra box)
    | 7 => some (.brz box)
    | 8 => some (.brp box)
    | 9 =>
      match box.toNat with
      | 1 => some .inp
      | 2 => some .out
      | 22 => some .otc
      | _ => none
    | _ => none

/-- The instruction at the start of a stream; its opcode is the hundreds
digit. -/
def decode (s : Stream Word) : Except Undecodable (Decoded Instruction) :=
  match Instruction.ofWord? (s 0) with
  | some instruction => .ok (.root (s 0 / 100).toUInt8 instruction 0)
  | none => .error ⟨s 0, .root, 1, 1⟩

end Retrocore.Lmc
