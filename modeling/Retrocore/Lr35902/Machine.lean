import Retrocore.Core
import Retrocore.Memory
import Retrocore.Lr35902.Flags
import Retrocore.Lr35902.Instruction

/-!
# The LR35902

The state of the processor with its memory, and the elementary moves on it:
places, pairs and the stack. It has no ports.
-/

namespace Retrocore.Lr35902

structure Registers where
  a : Byte := 0
  b : Byte := 0
  c : Byte := 0
  d : Byte := 0
  e : Byte := 0
  h : Byte := 0
  l : Byte := 0
  sp : Word := 0
  pc : Word := 0
  deriving DecidableEq, Repr

namespace Registers

def bc (r : Registers) : Word := wordOf r.b r.c
def de (r : Registers) : Word := wordOf r.d r.e
def hl (r : Registers) : Word := wordOf r.h r.l

end Registers

/-- A processor with a memory whose mapper is of type `μ`. -/
structure Machine (μ : Type) where
  regs : Registers
  flags : Flags
  /-- Whether interrupts are let through. -/
  ime : Bool
  /-- Whether the next instruction to run lets interrupts through once it has
  run. -/
  imeScheduled : Bool
  halted : Bool
  stopped : Bool
  /-- The vector of an interrupt that has been requested but not serviced. -/
  pending : Option Byte
  memory : Memory μ Byte

/-- The usual size of the memory. -/
def memorySize : Nat := 65536

/-- Where the first instruction stands. -/
def entryPoint : Word := 0x100

namespace Machine

variable {μ : Type}

def new (memory : Memory μ Byte) : Machine μ where
  regs := { a := 0xff, sp := 0xfffe, pc := entryPoint }
  flags := .ofByte 0xff
  ime := false
  imeScheduled := false
  halted := false
  stopped := false
  pending := none
  memory

def reset (m : Machine μ) : Machine μ :=
  { new m.memory with stopped := m.stopped }

/-- The newest request is kept until interrupts are let through. -/
def interrupt (m : Machine μ) (vector : Byte) : Machine μ := { m with pending := some vector }

def start (m : Machine μ) : Machine μ := { m with stopped := false }

def stop (m : Machine μ) : Machine μ := { m with stopped := true }

def canRun (m : Machine μ) : Bool := !m.stopped && m.regs.pc.toNat < m.memory.size

/-! ## Registers and memory -/

def reg (m : Machine μ) : Reg → Byte
  | .b => m.regs.b
  | .c => m.regs.c
  | .d => m.regs.d
  | .e => m.regs.e
  | .h => m.regs.h
  | .l => m.regs.l
  | .a => m.regs.a

def setReg (m : Machine μ) (r : Reg) (v : Byte) : Machine μ :=
  match r with
  | .b => { m with regs.b := v }
  | .c => { m with regs.c := v }
  | .d => { m with regs.d := v }
  | .e => { m with regs.e := v }
  | .h => { m with regs.h := v }
  | .l => { m with regs.l := v }
  | .a => { m with regs.a := v }

def pair (m : Machine μ) : Pair → Word
  | .bc => m.regs.bc
  | .de => m.regs.de
  | .hl => m.regs.hl
  | .sp => m.regs.sp
  | .af => wordOf m.regs.a m.flags.toByte

def setPair (m : Machine μ) (p : Pair) (v : Word) : Machine μ :=
  match p with
  | .bc => { m with regs.b := highByte v, regs.c := lowByte v }
  | .de => { m with regs.d := highByte v, regs.e := lowByte v }
  | .hl => { m with regs.h := highByte v, regs.l := lowByte v }
  | .sp => { m with regs.sp := v }
  | .af => { m with regs.a := highByte v, flags := .ofByte (lowByte v) }

def jump (m : Machine μ) (address : Word) : Machine μ := { m with regs.pc := address }

/-- The address of a place that is a memory cell. -/
def addressOf (m : Machine μ) : Place → Option Word
  | .reg _ => none
  | .at p => some (m.pair p)
  | .hlUp | .hlDown => some m.regs.hl
  | .cell address => some address
  | .high low => some (wordOf 0xff low)
  | .highC => some (wordOf 0xff m.regs.c)

/-- The machine once a place has been accessed: two of the places move HL. -/
def touch (m : Machine μ) : Place → Machine μ
  | .hlUp => m.setPair .hl (m.regs.hl + 1)
  | .hlDown => m.setPair .hl (m.regs.hl - 1)
  | _ => m

variable [Mapper μ Byte]

def readWord (m : Machine μ) (address : Word) : Word × Machine μ :=
  let (v, memory) := m.memory.readWord address
  (v, { m with memory })

/-- Reads a place. -/
def load (m : Machine μ) (p : Place) : Byte × Machine μ :=
  let (v, memory) :=
    match p with
    | .reg r => (m.reg r, m.memory)
    | _ => m.memory.read ((m.addressOf p).getD 0)
  (v, { m with memory }.touch p)

/-- Reads an operand. -/
def operand (m : Machine μ) : Operand → Byte × Machine μ
  | .place p => m.load p
  | .imm v => (v, m)

/-- Stores to a place. -/
def assign (m : Machine μ) (p : Place) (v : Byte) : Machine μ :=
  match p with
  | .reg r => m.setReg r v
  | _ =>
    let address := (m.addressOf p).getD 0
    let m := m.touch p
    { m with memory := m.memory.write address v }

def push (m : Machine μ) (v : Word) : Machine μ :=
  let sp := m.regs.sp - 2
  { m with regs.sp := sp, memory := m.memory.writeWord sp v }

/-- The word on top of the stack, and the machine without it. -/
def pop (m : Machine μ) : Word × Machine μ :=
  let (v, m) := m.readWord m.regs.sp
  (v, { m with regs.sp := m.regs.sp + 2 })

/-- Pushes the address of the next instruction and goes elsewhere. -/
def callTo (m : Machine μ) (address : Word) : Machine μ :=
  (m.push m.regs.pc).jump address

/-- Goes to the address on top of the stack. -/
def goBack (m : Machine μ) : Machine μ :=
  let (address, m) := m.pop
  m.jump address

end Machine

end Retrocore.Lr35902
