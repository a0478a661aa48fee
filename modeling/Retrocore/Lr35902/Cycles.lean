import Retrocore.Lr35902.Instruction

/-!
# Costs of LR35902 instructions

The clock cycles of an instruction, with what a taken branch adds.
-/

namespace Retrocore.Lr35902.Cycles

/-- The costs of the root table, branches not taken. Opcodes without an
instruction have none. -/
def rootTable : Array Nat := #[
  4, 12, 8, 8, 4, 4, 8, 4, 20, 8, 8, 8, 4, 4, 8, 4,
  4, 12, 8, 8, 4, 4, 8, 4, 12, 8, 8, 8, 4, 4, 8, 4,
  8, 12, 8, 8, 4, 4, 8, 4, 8, 8, 8, 8, 4, 4, 8, 4,
  8, 12, 8, 8, 12, 12, 12, 4, 8, 8, 8, 8, 4, 4, 8, 4,
  4, 4, 4, 4, 4, 4, 8, 4, 4, 4, 4, 4, 4, 4, 8, 4,
  4, 4, 4, 4, 4, 4, 8, 4, 4, 4, 4, 4, 4, 4, 8, 4,
  4, 4, 4, 4, 4, 4, 8, 4, 4, 4, 4, 4, 4, 4, 8, 4,
  8, 8, 8, 8, 8, 8, 4, 8, 4, 4, 4, 4, 4, 4, 8, 4,
  4, 4, 4, 4, 4, 4, 8, 4, 4, 4, 4, 4, 4, 4, 8, 4,
  4, 4, 4, 4, 4, 4, 8, 4, 4, 4, 4, 4, 4, 4, 8, 4,
  4, 4, 4, 4, 4, 4, 8, 4, 4, 4, 4, 4, 4, 4, 8, 4,
  4, 4, 4, 4, 4, 4, 8, 4, 4, 4, 4, 4, 4, 4, 8, 4,
  8, 12, 12, 16, 12, 16, 8, 16, 8, 16, 12, 0, 12, 24, 8, 16,
  8, 12, 12, 0, 12, 16, 8, 16, 8, 16, 12, 0, 12, 0, 8, 16,
  12, 12, 8, 0, 0, 16, 8, 16, 16, 4, 16, 0, 0, 0, 8, 16,
  12, 12, 8, 4, 0, 16, 8, 16, 12, 8, 16, 4, 0, 0, 8, 16]

def root (opcode : Byte) : Nat := rootTable.getD opcode.toNat 0

/-- The cost of an instruction of the bits table: more on a memory cell than on
a register. -/
def bits : Instruction → Nat
  | .bit _ (.at _) => 12
  | .rot _ (.at _) | .swap (.at _) | .res _ (.at _) | .set _ (.at _) => 16
  | _ => 8

/-- The cost of an instruction, branches not taken. -/
def of (d : Decoded Instruction) : Nat :=
  match d.table with
  | .bits => bits d.instruction
  | _ => root d.opcode

/-! What a conditional branch costs on top when it is taken. -/

def retTaken : Nat := 12
def jpTaken : Nat := 4
def callTaken : Nat := 12
def jrTaken : Nat := 4

/-! What the other kinds of step cost. -/

def halted : Nat := 4
def interrupt : Nat := 20

end Retrocore.Lr35902.Cycles
