import Retrocore.Z80.Instruction

/-!
# Costs of Z80 instructions

The clock cycles of an instruction, with what a taken branch or another round of
a block instruction adds.
-/

namespace Retrocore.Z80.Cycles

/-- The costs of the root table, branches not taken. The four prefix bytes have
none. -/
def rootTable : Array Nat := #[
  4, 10, 7, 6, 4, 4, 7, 4, 4, 11, 7, 6, 4, 4, 7, 4,
  8, 10, 7, 6, 4, 4, 7, 4, 12, 11, 7, 6, 4, 4, 7, 4,
  7, 10, 16, 6, 4, 4, 7, 4, 7, 11, 16, 6, 4, 4, 7, 4,
  7, 10, 13, 6, 11, 11, 10, 4, 7, 11, 13, 6, 4, 4, 7, 4,
  4, 4, 4, 4, 4, 4, 7, 4, 4, 4, 4, 4, 4, 4, 7, 4,
  4, 4, 4, 4, 4, 4, 7, 4, 4, 4, 4, 4, 4, 4, 7, 4,
  4, 4, 4, 4, 4, 4, 7, 4, 4, 4, 4, 4, 4, 4, 7, 4,
  7, 7, 7, 7, 7, 7, 4, 7, 4, 4, 4, 4, 4, 4, 7, 4,
  4, 4, 4, 4, 4, 4, 7, 4, 4, 4, 4, 4, 4, 4, 7, 4,
  4, 4, 4, 4, 4, 4, 7, 4, 4, 4, 4, 4, 4, 4, 7, 4,
  4, 4, 4, 4, 4, 4, 7, 4, 4, 4, 4, 4, 4, 4, 7, 4,
  4, 4, 4, 4, 4, 4, 7, 4, 4, 4, 4, 4, 4, 4, 7, 4,
  5, 10, 10, 10, 10, 11, 7, 11, 5, 10, 10, 0, 10, 17, 7, 11,
  5, 10, 10, 11, 10, 11, 7, 11, 5, 4, 10, 11, 10, 0, 7, 11,
  5, 10, 10, 19, 10, 11, 7, 11, 5, 4, 10, 4, 10, 0, 7, 11,
  5, 10, 10, 4, 10, 11, 7, 11, 5, 6, 10, 4, 10, 0, 7, 11]

def root (opcode : Byte) : Nat := rootTable.getD opcode.toNat 0

/-- The cost of an instruction of the bits table: more on a memory cell than on
a register. -/
def bits : Instruction → Nat
  | .bit _ (.at _) => 12
  | .rot _ (.at _) _ | .res _ (.at _) _ | .set _ (.at _) _ => 15
  | _ => 8

def extended : Instruction → Nat
  | .inC _ | .outC _ => 12
  | .adcHl _ | .sbcHl _ => 15
  | .storePair .. | .loadPair .. => 20
  | .retn | .reti => 14
  | .ld .. => 9
  | .rld | .rrd => 18
  | .block _ => 16
  | _ => 8

/-- What working out the address of an indexed cell costs on top. An immediate
operand is read meanwhile. -/
def indexing : Instruction → Nat
  | .ld (.idx ..) (.imm _) => 5
  | .ld (.idx ..) _ | .ld _ (.place (.idx ..)) => 8
  | .alu _ (.place (.idx ..)) | .inc (.idx ..) | .dec (.idx ..) => 8
  | _ => 0

/-- The cost of an instruction of the indexed bits table. -/
def indexedBits : Instruction → Nat
  | .bit .. => 20
  | _ => 23

/-- The cost of an instruction, branches not taken and block instructions not
repeated. -/
def of (d : Decoded Instruction) : Nat :=
  match d.table with
  | .root => root d.opcode
  | .bits => bits d.instruction
  | .extended => extended d.instruction
  | .indexed => root d.opcode + 4 + indexing d.instruction
  | .indexedBits => indexedBits d.instruction

/-! What a conditional branch costs on top when it is taken. -/

def retTaken : Nat := 6
def callTaken : Nat := 7
def jrTaken : Nat := 5

/-- What another round of a block instruction costs on top. -/
def blockRepeat : Nat := 5

/-! What the other kinds of step cost. -/

def halted : Nat := 4
def nmi : Nat := 11
def interruptMode0 : Nat := 13
def interruptMode1 : Nat := 13
def interruptMode2 : Nat := 19

end Retrocore.Z80.Cycles
