import Retrocore.Core
import Retrocore.Memory
import Retrocore.Observer
import Retrocore.Lmc.Instruction

/-!
# The Little Man Computer

An accumulator, a program counter and a hundred mailboxes. Arithmetic is modulo
1000, and what it means to go below zero is kept in a flag. `step` is what the
little man does next.
-/

namespace Retrocore.Lmc

/-- The in-basket and the two out-baskets, one for numbers and one for
characters. -/
inductive Port where
  | inp | out | otc
  deriving DecidableEq, Repr

def Port.name : Port → String
  | inp => "inp"
  | out => "out"
  | otc => "otc"

def Port.ofName? (s : String) : Option Port := [inp, out, otc].find? (·.name == s)

instance : Numbered Port where
  number
    | .inp => 0
    | .out => 1
    | .otc => 2

/-- Numbers wrap at this value. -/
def modulus : Word := maxValue + 1

/-- A machine with a memory whose mapper is of type `μ` and with observers of
type `δ` at its baskets. -/
structure Machine (μ δ : Type) where
  acc : Word
  pc : Byte
  negative : Bool
  halted : Bool
  stopped : Bool
  /-- The number in the in-basket. -/
  input : Option Word
  initialPc : Byte
  observers : List δ
  memory : Memory μ Word

namespace Machine

variable {μ δ : Type}

def new (memory : Memory μ Word) (initialPc : Byte) : Machine μ δ where
  acc := 0
  pc := initialPc
  negative := false
  halted := false
  stopped := false
  input := none
  initialPc
  observers := []
  memory

def reset (m : Machine μ δ) : Machine μ δ :=
  { m with acc := 0, pc := m.initialPc, negative := false, halted := false, input := none }

def start (m : Machine μ δ) : Machine μ δ := { m with stopped := false }

def stop (m : Machine μ δ) : Machine μ δ := { m with stopped := true }

def canRun (m : Machine μ δ) : Bool := !m.stopped && !m.halted && m.pc.toNat < mailboxes

def connect (m : Machine μ δ) (observer : δ) : Machine μ δ :=
  { m with observers := m.observers ++ [observer] }

/-- Puts a number into the in-basket. -/
def give (m : Machine μ δ) (v : Word) : Machine μ δ := { m with input := some (v % modulus) }

def setAcc (m : Machine μ δ) (v : Word) : Machine μ δ := { m with acc := v % modulus }

/-- Whether the next instruction waits for a number in the in-basket. -/
def isWaiting (m : Machine μ δ) : Bool :=
  !m.halted && m.memory.directRead m.pc.toUInt16 == 901 && m.input.isNone

/-- A machine in one line. -/
def describe (m : Machine μ δ) : String :=
  s!"Lmc \x7b acc: {m.acc}, pc: {m.pc}, negative: {m.negative}, halted: {m.halted} \x7d"

/-- Takes a number into the accumulator. It is never negative. -/
def take (m : Machine μ δ) (v : Word) : Machine μ δ := { m with acc := v, negative := false }

variable [Mapper μ Word] [Observer δ Port Word]

/-- Reads the number in a mailbox. -/
def box (m : Machine μ δ) (address : Byte) : Word × Machine μ δ :=
  let (v, memory) := m.memory.read address.toUInt16
  (v % modulus, { m with memory })

/-- Puts the accumulator into an out-basket. -/
def putOut (m : Machine μ δ) (port : Port) : Ran (Machine μ δ) :=
  let (observers, result) := Observer.notifyOut m.observers port m.acc
  ⟨{ m with observers }, result.map fun _ => 1⟩

/-- The machine after an instruction that has just been read, and what it cost.
The program counter is already behind the instruction. -/
def execute (m : Machine μ δ) : Instruction → Ran (Machine μ δ)
  | .hlt | .dat _ => ⟨{ m with halted := true }, .ok 1⟩
  | .add address =>
    let (v, m) := m.box address
    ⟨m.take ((m.acc + v) % modulus), .ok 1⟩
  | .sub address =>
    let (v, m) := m.box address
    ⟨{ m with acc := (m.acc + modulus - v) % modulus, negative := m.acc < v }, .ok 1⟩
  | .sta address => ⟨{ m with memory := m.memory.write address.toUInt16 m.acc }, .ok 1⟩
  | .lda address =>
    let (v, m) := m.box address
    ⟨m.take v, .ok 1⟩
  | .bra address => ⟨{ m with pc := address }, .ok 1⟩
  | .brz address => ⟨if m.acc = 0 then { m with pc := address } else m, .ok 1⟩
  | .brp address => ⟨if m.negative then m else { m with pc := address }, .ok 1⟩
  | .inp =>
    match Observer.notifyIn m.observers Port.inp with
    | (observers, .error fault) => ⟨{ m with observers }, .error fault⟩
    | (observers, .ok (some v)) => ⟨{ m with observers }.take (v % modulus), .ok 1⟩
    | (observers, .ok none) =>
      match m.input with
      | some v => ⟨{ m with observers, input := none }.take (v % modulus), .ok 1⟩
      -- Nothing there: the same instruction once more.
      | none => ⟨{ m with observers, pc := m.pc - 1 }, .ok 1⟩
  | .out => m.putOut .out
  | .otc => m.putOut .otc

/-- What the mailbox gives when it is read at the program counter. -/
def fetched (m : Machine μ δ) : Except Undecodable (Decoded Instruction) :=
  decode (m.memory.stream m.pc.toUInt16)

/-- Reads the mailbox at the program counter, which stays where it is. -/
def readAhead (m : Machine μ δ) : Machine μ δ :=
  { m with memory := m.memory.afterRead m.pc.toUInt16 }

/-- Reads the mailbox at the program counter and moves on to the next one. -/
def advance (m : Machine μ δ) : Machine μ δ := { m.readAhead with pc := m.pc + 1 }

/-- Where the mailbox holds no instruction, the program counter stays at it. -/
def step (m : Machine μ δ) : Ran (Machine μ δ) :=
  if m.halted then ⟨m, .ok 1⟩
  else
    match m.fetched with
    | .ok d => m.advance.execute d.instruction
    | .error u => ⟨m.readAhead, .error u.fault⟩

instance : Core (Machine μ δ) where
  step := step
  pc m := m.pc.toUInt16
  canRun := canRun
  isHalted m := m.halted
  interruptsEnabled _ := false
  interrupt m _ := m
  reset := reset
  start := start
  stop := stop
  registers m := [("acc", m.acc), ("pc", m.pc.toUInt16)]
  flags m := [("n", m.negative)]

end Machine

end Retrocore.Lmc
