import Retrocore.Core
import Retrocore.Memory
import Retrocore.Ports
import Retrocore.Z80.Flags
import Retrocore.Z80.Instruction

/-!
# The Z80

The state of the processor with its memory and ports, and the elementary moves
on it: places, pairs, the stack and the refresh register.
-/

namespace Retrocore.Z80

/-- The second bank of registers, which is reached by exchanging it with the
first. -/
structure Shadow where
  a : Byte := 0
  flags : Flags := {}
  b : Byte := 0
  c : Byte := 0
  d : Byte := 0
  e : Byte := 0
  h : Byte := 0
  l : Byte := 0
  deriving DecidableEq, Repr

structure Registers where
  a : Byte := 0
  b : Byte := 0
  c : Byte := 0
  d : Byte := 0
  e : Byte := 0
  h : Byte := 0
  l : Byte := 0
  ix : Word := 0
  iy : Word := 0
  sp : Word := 0
  pc : Word := 0
  i : Byte := 0
  r : Byte := 0
  shadow : Shadow := {}
  deriving DecidableEq, Repr

namespace Registers

def bc (r : Registers) : Word := wordOf r.b r.c
def de (r : Registers) : Word := wordOf r.d r.e
def hl (r : Registers) : Word := wordOf r.h r.l

end Registers

/-- How an interrupt is serviced: by the instruction it supplies, at a fixed
address, or through a table of addresses. -/
inductive InterruptMode where
  | zero | one | two
  deriving DecidableEq, Repr

namespace InterruptMode

def number : InterruptMode → Nat
  | zero => 0
  | one => 1
  | two => 2

def name : InterruptMode → String
  | zero => "Zero"
  | one => "One"
  | two => "Two"

def ofNumber : Nat → InterruptMode
  | 0 => zero
  | 1 => one
  | _ => two

end InterruptMode

/-- A processor with a memory whose mapper is of type `μ` and with observers of
type `δ` at its ports. -/
structure Machine (μ δ : Type) where
  regs : Registers
  flags : Flags
  /-- Whether interrupts are let through. -/
  iff1 : Bool
  /-- What `iff1` was before a non-maskable interrupt. -/
  iff2 : Bool
  mode : InterruptMode
  halted : Bool
  stopped : Bool
  /-- The byte of an interrupt that has been requested but not serviced. -/
  pending : Option Byte
  nmiPending : Bool
  initialPc : Word
  ports : Ports δ
  memory : Memory μ Byte

/-- The usual size of the memory. -/
def memorySize : Nat := 65536

/-- Where the handler of the non-maskable interrupt stands. -/
def nmiVector : Word := 0x66

/-- Where the interrupt handler stands in mode one. -/
def modeOneVector : Word := 0x38

namespace Machine

variable {μ δ : Type}

def new (memory : Memory μ Byte) (initialPc : Word) : Machine μ δ where
  regs := { a := 0xff, sp := 0xffff, pc := initialPc }
  flags := .ofByte 0xff
  iff1 := false
  iff2 := false
  mode := .zero
  halted := false
  stopped := false
  pending := none
  nmiPending := false
  initialPc
  ports := {}
  memory

def reset (m : Machine μ δ) : Machine μ δ :=
  { m with
    regs := { a := 0xff, sp := 0xffff, pc := m.initialPc }
    flags := .ofByte 0xff
    iff1 := false
    iff2 := false
    mode := .zero
    halted := false
    pending := none
    nmiPending := false }

/-- The newest request is kept until interrupts are let through. -/
def interrupt (m : Machine μ δ) (byte : Byte) : Machine μ δ := { m with pending := some byte }

/-- Requests a non-maskable interrupt. -/
def interruptNmi (m : Machine μ δ) : Machine μ δ := { m with nmiPending := true }

def start (m : Machine μ δ) : Machine μ δ := { m with stopped := false }

def stop (m : Machine μ δ) : Machine μ δ := { m with stopped := true }

def canRun (m : Machine μ δ) : Bool := !m.stopped && m.regs.pc.toNat < m.memory.size

/-- Latches a value for later inputs from a port. -/
def input (m : Machine μ δ) (port v : Byte) : Machine μ δ :=
  { m with ports := m.ports.input port v }

def connect (m : Machine μ δ) (observer : δ) : Machine μ δ :=
  { m with ports := m.ports.connect observer }

/-! ## Registers and memory -/

/-- Counts opcode fetches in the low seven bits of R. -/
def refresh (m : Machine μ δ) (fetches : Nat) : Machine μ δ :=
  let r := m.regs.r
  { m with regs.r := (r &&& 0x80) ||| ((r + UInt8.ofNat fetches) &&& 0x7f) }

def reg (m : Machine μ δ) : Reg → Byte
  | .b => m.regs.b
  | .c => m.regs.c
  | .d => m.regs.d
  | .e => m.regs.e
  | .h => m.regs.h
  | .l => m.regs.l
  | .a => m.regs.a
  | .ixh => highByte m.regs.ix
  | .ixl => lowByte m.regs.ix
  | .iyh => highByte m.regs.iy
  | .iyl => lowByte m.regs.iy
  | .i => m.regs.i
  | .r => m.regs.r

def setReg (m : Machine μ δ) (which : Reg) (v : Byte) : Machine μ δ :=
  match which with
  | .b => { m with regs.b := v }
  | .c => { m with regs.c := v }
  | .d => { m with regs.d := v }
  | .e => { m with regs.e := v }
  | .h => { m with regs.h := v }
  | .l => { m with regs.l := v }
  | .a => { m with regs.a := v }
  | .ixh => { m with regs.ix := wordOf v (lowByte m.regs.ix) }
  | .ixl => { m with regs.ix := wordOf (highByte m.regs.ix) v }
  | .iyh => { m with regs.iy := wordOf v (lowByte m.regs.iy) }
  | .iyl => { m with regs.iy := wordOf (highByte m.regs.iy) v }
  | .i => { m with regs.i := v }
  | .r => { m with regs.r := v }

def pair (m : Machine μ δ) : Pair → Word
  | .bc => m.regs.bc
  | .de => m.regs.de
  | .hl => m.regs.hl
  | .sp => m.regs.sp
  | .af => wordOf m.regs.a m.flags.toByte
  | .ix => m.regs.ix
  | .iy => m.regs.iy

def setPair (m : Machine μ δ) (p : Pair) (v : Word) : Machine μ δ :=
  match p with
  | .bc => { m with regs.b := highByte v, regs.c := lowByte v }
  | .de => { m with regs.d := highByte v, regs.e := lowByte v }
  | .hl => { m with regs.h := highByte v, regs.l := lowByte v }
  | .sp => { m with regs.sp := v }
  | .af => { m with regs.a := highByte v, flags := .ofByte (lowByte v) }
  | .ix => { m with regs.ix := v }
  | .iy => { m with regs.iy := v }

def jump (m : Machine μ δ) (address : Word) : Machine μ δ := { m with regs.pc := address }

/-- The address of a place that is a memory cell. -/
def addressOf (m : Machine μ δ) : Place → Option Word
  | .reg _ => none
  | .at p => some (m.pair p)
  | .idx index d => some (m.pair index.pair + signExtend d)
  | .cell address => some address

variable [Mapper μ Byte]

/-- Reads a memory cell. -/
def read (m : Machine μ δ) (address : Word) : Byte × Machine μ δ :=
  let (v, memory) := m.memory.read address
  (v, { m with memory })

def readWord (m : Machine μ δ) (address : Word) : Word × Machine μ δ :=
  let (v, memory) := m.memory.readWord address
  (v, { m with memory })

/-- The byte at a place, and the memory once the place has been looked at. -/
def lookAt (m : Machine μ δ) : Place → Byte × Memory μ Byte
  | .reg which => (m.reg which, m.memory)
  | p => m.memory.read ((m.addressOf p).getD 0)

/-- Reads a place. -/
def load (m : Machine μ δ) (p : Place) : Byte × Machine μ δ :=
  let (v, memory) := m.lookAt p
  (v, { m with memory })

/-- Reads an operand. -/
def operand (m : Machine μ δ) (src : Operand) : Byte × Machine μ δ :=
  let (v, memory) :=
    match src with
    | .place p => m.lookAt p
    | .imm v => (v, m.memory)
  (v, { m with memory })

/-- Stores to a memory cell. -/
def store (m : Machine μ δ) (address : Word) (v : Byte) : Machine μ δ :=
  { m with memory := m.memory.write address v }

def storeWord (m : Machine μ δ) (address v : Word) : Machine μ δ :=
  { m with memory := m.memory.writeWord address v }

/-- Stores to a place. -/
def assign (m : Machine μ δ) (p : Place) (v : Byte) : Machine μ δ :=
  match p with
  | .reg which => m.setReg which v
  | p => m.store ((m.addressOf p).getD 0) v

def push (m : Machine μ δ) (v : Word) : Machine μ δ :=
  let sp := m.regs.sp - 2
  { m with regs.sp := sp, memory := m.memory.writeWord sp v }

/-- The word on top of the stack, and the machine without it. -/
def pop (m : Machine μ δ) : Word × Machine μ δ :=
  let (v, m) := m.readWord m.regs.sp
  (v, { m with regs.sp := m.regs.sp + 2 })

/-- Pushes the address of the next instruction and goes elsewhere. -/
def callTo (m : Machine μ δ) (address : Word) : Machine μ δ :=
  (m.push m.regs.pc).jump address

/-- Goes to the address on top of the stack. -/
def goBack (m : Machine μ δ) : Machine μ δ :=
  let (address, m) := m.pop
  m.jump address

end Machine

end Retrocore.Z80
