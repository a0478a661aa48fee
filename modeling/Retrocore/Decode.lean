import Retrocore.Fault

/-!
# Decoding

A decoder reads an endless stream of cells, and says which instruction stands at
its start and how many cells it takes. The processors read a stream of live
memory, the disassembler one of a file followed by zeros, and an interrupting
device puts its opcode in front of a stream; all three decode alike because they
call the same function.

The 8080 family packs its operands into fields of the opcode byte. `Fields`
takes an opcode apart, and the small enumerations `AluOp`, `Condition` and
`RotateOp` are numbered as the fields number them.
-/

namespace Retrocore

/-- Cells to decode, without an end. -/
abbrev Stream (κ : Type) := Nat → κ

namespace Stream

variable {κ : Type}

/-- The cells of an array from a position on, then zeros. -/
def ofArray [Inhabited κ] (cells : Array κ) (start : Nat) : Stream κ :=
  fun i => cells.getD (start + i) default

/-- The stream with one more cell in front. -/
def cons (first : κ) (s : Stream κ) : Stream κ
  | 0 => first
  | i + 1 => s i

/-- The stream without its first `n` cells. -/
def drop (s : Stream κ) (n : Nat) : Stream κ := fun i => s (n + i)

/-- The little-endian word at a position. -/
def word (s : Stream Byte) (i : Nat) : Word := wordOf (s (i + 1)) (s i)

@[simp] theorem drop_cons (first : κ) (s : Stream κ) : (cons first s).drop 1 = s := by
  funext i
  show cons first s (1 + i) = s i
  rw [Nat.add_comm]
  rfl

end Stream

/-- An instruction and where it was found. -/
structure Decoded (ι : Type) where
  instruction : ι
  table : OpcodeTable
  /-- The opcode as it was looked up in `table`. -/
  opcode : Byte
  /-- How many cells the instruction takes. -/
  length : Nat
  /-- How many of these were read as opcodes. -/
  fetches : Nat
  deriving DecidableEq, Repr

/-- An instruction of the root table, whose one opcode stands before any
operands. -/
def Decoded.root {ι : Type} (opcode : Byte) (instruction : ι) (operands : Nat) : Decoded ι :=
  ⟨instruction, .root, opcode, 1 + operands, 1⟩

/-- Cells that stand for no instruction. -/
structure Undecodable where
  opcode : Word
  table : OpcodeTable
  /-- How many cells were read before that was clear. -/
  length : Nat
  /-- How many of these were read as opcodes. -/
  fetches : Nat
  deriving DecidableEq, Repr

def Undecodable.fault (u : Undecodable) : Fault := .unrecognizedOpcode u.opcode u.table

/-! ## Fields of an opcode -/

/-- The parts of an 8080-family opcode: two bits `x`, three bits `y`, three bits
`z`, and `y` once more as two bits `p` and one bit `q`. -/
structure Fields where
  x : Nat
  y : Nat
  z : Nat
  p : Nat
  q : Nat
  deriving DecidableEq, Repr

def Fields.of (opcode : Byte) : Fields :=
  let y := opcode.toNat / 8 % 8
  { x := opcode.toNat / 64, y, z := opcode.toNat % 8, p := y / 2, q := y % 2 }

/-- An enumeration whose members have numbers and names. -/
class Coded (α : Type) where
  ofCode? : Nat → Option α
  name : α → String

/-- The member with the number that a field of an opcode holds. -/
def codedField (α : Type) [Coded α] (code opcode : Byte) (table : OpcodeTable) : Except Fault α :=
  match Coded.ofCode? code.toNat with
  | some member => .ok member
  | none => .error (.unrecognizedOpcode opcode.toUInt16 table)

/-- The eight operations on the accumulator. -/
inductive AluOp where
  | add | adc | sub | sbc | and | xor | or | cp
  deriving DecidableEq, Repr

namespace AluOp

def ofCode : Nat → AluOp
  | 0 => add
  | 1 => adc
  | 2 => sub
  | 3 => sbc
  | 4 => and
  | 5 => xor
  | 6 => or
  | _ => cp

def name : AluOp → String
  | add => "add"
  | adc => "adc"
  | sub => "sub"
  | sbc => "sbc"
  | and => "and"
  | xor => "xor"
  | or => "or"
  | cp => "cp"

instance : Coded AluOp where
  ofCode? n := if n < 8 then some (ofCode n) else none
  name := name

end AluOp

/-- What a conditional jump, call or return waits for: a flag that is clear or
set. -/
inductive Condition where
  | nz | z | nc | c | po | pe | p | m
  deriving DecidableEq, Repr

namespace Condition

def ofCode : Nat → Condition
  | 0 => nz
  | 1 => z
  | 2 => nc
  | 3 => c
  | 4 => po
  | 5 => pe
  | 6 => p
  | _ => m

def name : Condition → String
  | nz => "nz"
  | z => "z"
  | nc => "nc"
  | c => "c"
  | po => "po"
  | pe => "pe"
  | p => "p"
  | m => "m"

instance : Coded Condition where
  ofCode? n := if n < 8 then some (ofCode n) else none
  name := name

end Condition

/-- Rotates and shifts. `sll`, which shifts a one in, exists on the Z80 only. -/
inductive RotateOp where
  | rlc | rrc | rl | rr | sla | sra | sll | srl
  deriving DecidableEq, Repr

namespace RotateOp

def ofCode : Nat → RotateOp
  | 0 => rlc
  | 1 => rrc
  | 2 => rl
  | 3 => rr
  | 4 => sla
  | 5 => sra
  | 6 => sll
  | _ => srl

def name : RotateOp → String
  | rlc => "rlc"
  | rrc => "rrc"
  | rl => "rl"
  | rr => "rr"
  | sla => "sla"
  | sra => "sra"
  | sll => "sll"
  | srl => "srl"

instance : Coded RotateOp where
  ofCode? n := if n < 8 then some (ofCode n) else none
  name := name

end RotateOp

end Retrocore
