import Retrocore.Core
import Retrocore.Memory
import Retrocore.Observer
import Retrocore.Synacor.Instruction

/-!
# The Synacor machine

Eight registers, a stack without a limit, and a console for single characters.
`step` is what the machine does next.
-/

namespace Retrocore.Synacor

/-- The usual size of the memory. -/
def memorySize : Nat := 32768

/-- The console is the machine's only device. -/
def consolePort : Byte := 0

/-- A machine with a memory whose mapper is of type `μ` and with observers of
type `δ` at its console. -/
structure Machine (μ δ : Type) where
  regs : Vector Word 8
  pc : Word
  /-- The newest entry comes first. -/
  stack : List Word
  halted : Bool
  stopped : Bool
  /-- Characters waiting to be read. -/
  input : List Byte
  initialPc : Word
  observers : List δ
  memory : Memory μ Word

namespace Machine

variable {μ δ : Type}

def new (memory : Memory μ Word) (initialPc : Word) : Machine μ δ where
  regs := .replicate 8 0
  pc := initialPc
  stack := []
  halted := false
  stopped := false
  input := []
  initialPc
  observers := []
  memory

def reset (m : Machine μ δ) : Machine μ δ :=
  { m with regs := .replicate 8 0, pc := m.initialPc, stack := [], halted := false, input := [] }

def start (m : Machine μ δ) : Machine μ δ := { m with stopped := false }

def stop (m : Machine μ δ) : Machine μ δ := { m with stopped := true }

def canRun (m : Machine μ δ) : Bool := !m.stopped && !m.halted && m.pc.toNat < memorySize

def connect (m : Machine μ δ) (observer : δ) : Machine μ δ :=
  { m with observers := m.observers ++ [observer] }

/-- Queues characters to be read. -/
def give (m : Machine μ δ) (chars : List Byte) : Machine μ δ :=
  { m with input := m.input ++ chars }

/-- A machine in one line; of the stack only the depth is shown. -/
def describe (m : Machine μ δ) : String :=
  let regs := ", ".intercalate (m.regs.toList.map toString)
  s!"Synacor \x7b regs: [{regs}], pc: {m.pc}, stack: {m.stack.length}, halted: {m.halted} \x7d"

/-- The number that an argument stands for. -/
def value (m : Machine μ δ) : Arg → Word
  | .lit v => v
  | .reg r => m.regs.get r

def jump (m : Machine μ δ) (address : Word) : Machine μ δ := { m with pc := address }

def setReg (m : Machine μ δ) (r : Fin 8) (v : Word) : Machine μ δ :=
  { m with regs := m.regs.set r.val v r.isLt }

/-- Stores to the register that an operation's first argument names, if it names
one. -/
def assign (m : Machine μ δ) (op : Op) (dst : Arg) (v : Word) : Ran (Machine μ δ) :=
  match op.dst dst with
  | .ok r => ⟨m.setReg r v, .ok 1⟩
  | .error fault => ⟨m, .error fault⟩

variable [Mapper μ Word] [Observer δ Byte Byte]

/-- Reads a character: what an observer supplies, else the first of those
queued. Without any the machine goes back to the same instruction. -/
def readChar (m : Machine μ δ) (i : Instruction) (dst : Arg) : Ran (Machine μ δ) :=
  match Observer.notifyIn m.observers consolePort with
  | (observers, .error fault) => ⟨{ m with observers }, .error fault⟩
  | (observers, .ok (some c)) => { m with observers }.assign i.op dst c.toUInt16
  | (observers, .ok none) =>
    match m.input with
    | c :: input => { m with observers, input }.assign i.op dst c.toUInt16
    | [] => ⟨{ m with observers, pc := m.pc - UInt16.ofNat i.length }, .ok 1⟩

/-- The machine after an instruction that has just been read, and what it cost.
The program counter is already behind the instruction. -/
def execute (m : Machine μ δ) (i : Instruction) : Ran (Machine μ δ) :=
  match i with
  | .halt => ⟨{ m with halted := true }, .ok 1⟩
  | .set dst a => m.assign .set dst (m.value a)
  | .push a => ⟨{ m with stack := m.value a :: m.stack }, .ok 1⟩
  | .pop dst =>
    match m.stack with
    | v :: stack => { m with stack }.assign .pop dst v
    | [] => ⟨m, .error .stackUnderflow⟩
  | .eq dst a b => m.assign .eq dst (bitWord (m.value a == m.value b))
  | .gt dst a b => m.assign .gt dst (bitWord (m.value a > m.value b))
  | .jmp target => ⟨m.jump (m.value target), .ok 1⟩
  | .jt a target => ⟨if m.value a = 0 then m else m.jump (m.value target), .ok 1⟩
  | .jf a target => ⟨if m.value a = 0 then m.jump (m.value target) else m, .ok 1⟩
  | .add dst a b => m.assign .add dst ((m.value a + m.value b) % modulus)
  | .mult dst a b => m.assign .mult dst ((m.value a * m.value b) % modulus)
  | .mod dst a b =>
    if m.value b = 0 then ⟨m, .error (.misuse "mod by zero")⟩
    else m.assign .mod dst (m.value a % m.value b)
  | .and dst a b => m.assign .and dst (m.value a &&& m.value b)
  | .or dst a b => m.assign .or dst (m.value a ||| m.value b)
  | .not dst a => m.assign .not dst (~~~m.value a &&& (modulus - 1))
  | .rmem dst address =>
    let (v, memory) := m.memory.read (m.value address)
    { m with memory }.assign .rmem dst v
  | .wmem address a =>
    ⟨{ m with memory := m.memory.write (m.value address) (m.value a) }, .ok 1⟩
  | .call target => ⟨{ m with stack := m.pc :: m.stack }.jump (m.value target), .ok 1⟩
  | .ret =>
    match m.stack with
    | address :: stack => ⟨{ m with stack }.jump address, .ok 1⟩
    | [] => ⟨{ m with halted := true }, .ok 1⟩
  | .out a =>
    let (observers, result) := Observer.notifyOut m.observers consolePort (lowByte (m.value a))
    ⟨{ m with observers }, result.map fun _ => 1⟩
  | .inp dst => m.readChar i dst
  | .noop => ⟨m, .ok 1⟩

/-- What the cells give when they are read at the program counter. -/
def fetched (m : Machine μ δ) : Except Undecodable (Decoded Instruction) :=
  decode (m.memory.stream m.pc)

/-- Reads so many cells at the program counter, which stays where it is. -/
def readAhead (m : Machine μ δ) (cells : Nat) : Machine μ δ :=
  { m with memory := m.memory.afterReads m.pc cells }

/-- Reads so many cells at the program counter and moves it over them. -/
def advance (m : Machine μ δ) (cells : Nat) : Machine μ δ :=
  (m.readAhead cells).jump (m.pc + UInt16.ofNat cells)

/-- Where the cells stand for nothing, the program counter stays in front of
them. -/
def step (m : Machine μ δ) : Ran (Machine μ δ) :=
  if m.halted then ⟨m, .ok 1⟩
  else
    match m.fetched with
    | .ok d => (m.advance d.length).execute d.instruction
    | .error u => ⟨m.readAhead u.length, .error u.fault⟩

instance : Core (Machine μ δ) where
  step := step
  pc m := m.pc
  canRun := canRun
  isHalted m := m.halted
  interruptsEnabled _ := false
  interrupt m _ := m
  reset := reset
  start := start
  stop := stop
  registers m :=
    let names := (List.range 8).map fun i => s!"r{i}"
    names.zip m.regs.toList ++ [("pc", m.pc), ("sp", UInt16.ofNat m.stack.length)]
  flags _ := []

end Machine

end Retrocore.Synacor
