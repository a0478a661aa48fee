import Retrocore.Core
import Retrocore.Memory
import Retrocore.Ports
import Retrocore.I8080.Flags
import Retrocore.I8080.Instruction

/-!
# The 8080

The state of the processor with its memory and ports, and the elementary moves
on it: registers, pairs and the stack.
-/

namespace Retrocore.I8080

structure Registers where
  a : Byte := 0
  b : Byte := 0
  c : Byte := 0
  d : Byte := 0
  e : Byte := 0
  h : Byte := 0
  l : Byte := 0
  sp : Word := 0
  pc : Word := 0
  deriving DecidableEq, Repr

namespace Registers

def bc (r : Registers) : Word := wordOf r.b r.c
def de (r : Registers) : Word := wordOf r.d r.e
def hl (r : Registers) : Word := wordOf r.h r.l

end Registers

/-- A processor with a memory whose mapper is of type `μ` and with observers of
type `δ` at its ports. -/
structure Machine (μ δ : Type) where
  regs : Registers
  flags : Flags
  /-- Whether interrupts are let through. -/
  inte : Bool
  halted : Bool
  stopped : Bool
  /-- The instruction of an interrupt that has been requested but not
  serviced. -/
  pending : Option Byte
  initialPc : Word
  ports : Ports δ
  memory : Memory μ Byte

/-- The usual size of the memory. -/
def memorySize : Nat := 65536

namespace Machine

variable {μ δ : Type}

/-- A new processor. It has to be started before it runs. -/
def new (memory : Memory μ Byte) (initialPc : Word) : Machine μ δ where
  regs := { pc := initialPc }
  flags := {}
  inte := false
  halted := false
  stopped := true
  pending := none
  initialPc
  ports := {}
  memory

def reset (m : Machine μ δ) : Machine μ δ :=
  { m with
    regs := { pc := m.initialPc }
    flags := {}
    inte := false
    halted := false
    pending := none }

/-- The newest request is kept until interrupts are let through. -/
def interrupt (m : Machine μ δ) (opcode : Byte) : Machine μ δ := { m with pending := some opcode }

def start (m : Machine μ δ) : Machine μ δ := { m with stopped := false }

def stop (m : Machine μ δ) : Machine μ δ := { m with stopped := true }

def canRun (m : Machine μ δ) : Bool := !m.stopped && m.regs.pc.toNat < m.memory.size

/-- Latches a value for later inputs from a port. -/
def input (m : Machine μ δ) (port v : Byte) : Machine μ δ :=
  { m with ports := m.ports.input port v }

def connect (m : Machine μ δ) (observer : δ) : Machine μ δ :=
  { m with ports := m.ports.connect observer }

/-! ## Registers and memory -/

def pair (m : Machine μ δ) : Pair → Word
  | .b => m.regs.bc
  | .d => m.regs.de
  | .h => m.regs.hl
  | .sp => m.regs.sp

def setPair (m : Machine μ δ) (p : Pair) (v : Word) : Machine μ δ :=
  match p with
  | .b => { m with regs.b := highByte v, regs.c := lowByte v }
  | .d => { m with regs.d := highByte v, regs.e := lowByte v }
  | .h => { m with regs.h := highByte v, regs.l := lowByte v }
  | .sp => { m with regs.sp := v }

def stackPair (m : Machine μ δ) : StackPair → Word
  | .b => m.regs.bc
  | .d => m.regs.de
  | .h => m.regs.hl
  | .psw => wordOf m.regs.a m.flags.toByte

def setStackPair (m : Machine μ δ) (p : StackPair) (v : Word) : Machine μ δ :=
  match p with
  | .b => m.setPair .b v
  | .d => m.setPair .d v
  | .h => m.setPair .h v
  | .psw => { m with regs.a := highByte v, flags := .ofByte (lowByte v) }

def setA (m : Machine μ δ) (v : Byte) : Machine μ δ := { m with regs.a := v }

def jump (m : Machine μ δ) (address : Word) : Machine μ δ := { m with regs.pc := address }

variable [Mapper μ Byte]

def store (m : Machine μ δ) (address : Word) (v : Byte) : Machine μ δ :=
  { m with memory := m.memory.write address v }

def storeWord (m : Machine μ δ) (address v : Word) : Machine μ δ :=
  { m with memory := m.memory.writeWord address v }

/-- Reads a memory cell. -/
def read (m : Machine μ δ) (address : Word) : Byte × Machine μ δ :=
  let (v, memory) := m.memory.read address
  (v, { m with memory })

def readWord (m : Machine μ δ) (address : Word) : Word × Machine μ δ :=
  let (v, memory) := m.memory.readWord address
  (v, { m with memory })

/-- Reads a register. One of them is the cell at HL. -/
def load (m : Machine μ δ) (r : Reg) : Byte × Machine μ δ :=
  let (v, memory) :=
    match r with
    | .b => (m.regs.b, m.memory)
    | .c => (m.regs.c, m.memory)
    | .d => (m.regs.d, m.memory)
    | .e => (m.regs.e, m.memory)
    | .h => (m.regs.h, m.memory)
    | .l => (m.regs.l, m.memory)
    | .m => m.memory.read m.regs.hl
    | .a => (m.regs.a, m.memory)
  (v, { m with memory })

def setReg (m : Machine μ δ) (r : Reg) (v : Byte) : Machine μ δ :=
  match r with
  | .b => { m with regs.b := v }
  | .c => { m with regs.c := v }
  | .d => { m with regs.d := v }
  | .e => { m with regs.e := v }
  | .h => { m with regs.h := v }
  | .l => { m with regs.l := v }
  | .m => m.store m.regs.hl v
  | .a => m.setA v

def push (m : Machine μ δ) (v : Word) : Machine μ δ :=
  let sp := m.regs.sp - 2
  { m with regs.sp := sp, memory := m.memory.writeWord sp v }

/-- The word on top of the stack, and the machine without it. -/
def pop (m : Machine μ δ) : Word × Machine μ δ :=
  let (v, m) := m.readWord m.regs.sp
  (v, { m with regs.sp := m.regs.sp + 2 })

/-- Pushes the address of the next instruction and goes elsewhere. -/
def callTo (m : Machine μ δ) (address : Word) : Machine μ δ :=
  (m.push m.regs.pc).jump address

/-- Goes to the address on top of the stack. -/
def goBack (m : Machine μ δ) : Machine μ δ :=
  let (address, m) := m.pop
  m.jump address

/-- Reads so many cells at the program counter and moves it over them. -/
def advance (m : Machine μ δ) (cells : Nat) : Machine μ δ :=
  { m with
    regs.pc := m.regs.pc + UInt16.ofNat cells
    memory := m.memory.afterReads m.regs.pc cells }

end Machine

end Retrocore.I8080
