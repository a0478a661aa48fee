import Retrocore.Console
import Retrocore.I8080.Step
import Retrocore.Monitor
import Retrocore.Z80.Step

/-!
# CP/M

Just enough of CP/M to run programs that print to the console. A program stands
at 0x100, calls the system at 5 and finishes by a jump to 0. Both entry points
are set up to put something out to a port, where an observer notes which of the
two traps was sprung; the session acts on it as soon as the instruction is done,
with the registers and the memory as they then are.
-/

namespace Retrocore.Cpm

/-- Where programs stand. -/
def programStart : Word := 0x100

def memorySize : Nat := 65536

/-! ## Traps -/

inductive Trap where
  /-- The program has finished. -/
  | finish
  /-- The program calls the system. -/
  | call
  deriving DecidableEq, Repr

def Trap.port : Trap → Byte
  | finish => 0
  | call => 1

def Trap.ofPort? (port : Byte) : Option Trap := [Trap.finish, .call].find? (·.port == port)

/-- The observer of a CP/M machine's ports. No port but those of the traps has
any use. -/
structure Traps where
  /-- The trap that was sprung last. -/
  sprung : Option Trap := none
  deriving DecidableEq, Repr

instance : Observer Traps Byte Byte where
  onIn t port := (t, .error (.illegalPort port.toUInt16))
  onOut t port _ :=
    match Trap.ofPort? port with
    | some trap => ({ sprung := some trap }, .ok ())
    | none => (t, .error (.illegalPort port.toUInt16))

/-- The trap that was sprung, if any, and the ports with the traps set again. -/
def Traps.take (p : Ports Traps) : Option Trap × Ports Traps :=
  match p.observers.findSome? (·.sprung) with
  | none => (none, p)
  | some trap => (some trap, { p with observers := p.observers.map fun _ => {} })

/-- The memory that a program starts with: the program as far as there is room
for it, an OUT at 0 and an OUT and a RET at 5 for the two traps, and zeros. -/
def image (program : List Byte) : Cells Byte :=
  let zeros : Cells Byte := ⟨Array.replicate memorySize 0⟩
  let room := memorySize - programStart.toNat
  let loaded := zeros.loadFrom programStart.toNat (program.take room)
  (loaded.loadFrom 0 [0xd3, Trap.finish.port]).loadFrom 5 [0xd3, Trap.call.port, 0xc9]

/-! ## Hosts -/

/-- A processor that CP/M programs run on. -/
class Host (κ : Type) where
  /-- The number and the argument of a system call. -/
  callArgs : κ → Byte × Word
  /-- What is in a memory cell. -/
  peek : κ → Word → Byte
  takeTrap : κ → Option Trap × κ

instance {μ : Type} : Host (I8080.Machine μ Traps) where
  callArgs m := (m.regs.c, m.regs.de)
  peek m := m.memory.directRead
  takeTrap m :=
    let (trap, ports) := Traps.take m.ports
    (trap, { m with ports })

instance {μ : Type} : Host (Z80.Machine μ Traps) where
  callArgs m := (m.regs.c, m.regs.de)
  peek m := m.memory.directRead
  takeTrap m :=
    let (trap, ports) := Traps.take m.ports
    (trap, { m with ports })

/-! ## System calls -/

/-- What stands in memory from an address on, up to the first dollar sign or to
the given number of bytes. -/
def textAt (peek : Word → Byte) : Nat → Word → List Byte
  | 0, _ => []
  | n + 1, address =>
    let c := peek address
    if c = 0x24 then [] else c :: textAt peek n (address + 1)

/-- What a system call prints: function 2 a character, function 9 a text. There
are no others. -/
def answer {κ : Type} [Host κ] (core : κ) : Option (List Byte) :=
  let (function, argument) := Host.callArgs core
  match function.toNat with
  | 2 => some [lowByte argument]
  | 9 => some (textAt (Host.peek core) memorySize argument)
  | _ => none

/-! ## Sessions -/

/-- What a monitor of a session hears. -/
inductive Happening where
  /-- The core is about to make a step. -/
  | stepping
  /-- The core has made a step or failed to. -/
  | stepped
  /-- The core is halted and cannot be woken. -/
  | haltedForGood
  | finished (cycles : Nat)
  /-- A system call of an unknown function. -/
  | ignoredCall (function : Byte)
  deriving DecidableEq, Repr

/-- A program with its machine and console. -/
structure Session (κ ω : Type) where
  core : κ
  monitor : ω
  console : Console := {}
  hasRun : Bool := false
  /-- Whether the program has come to its end. -/
  finished : Bool := false
  cycles : Nat := 0

namespace Session

variable {κ ω : Type}

def i8080 {μ : Type} (program : List Byte) (mapper : Option μ) (monitor : ω) :
    Session (I8080.Machine μ Traps) ω where
  core := (I8080.Machine.new ⟨image program, mapper⟩ programStart).connect {}
  monitor

def z80 {μ : Type} (program : List Byte) (mapper : Option μ) (monitor : ω) :
    Session (Z80.Machine μ Traps) ω where
  core := (Z80.Machine.new ⟨image program, mapper⟩ programStart).connect {}
  monitor

/-- A session runs through and is never paused. -/
def pause (_ : Session κ ω) : Except Fault Unit :=
  .error (.misuse "CP/M sessions can't be paused")

/-- A session runs through and is never stopped from outside. -/
def stop (_ : Session κ ω) : Except Fault Unit :=
  .error (.misuse "CP/M sessions can't be stopped")

variable [Core κ] [Host κ] [Monitor ω κ Happening]

/-- Tells the monitor. -/
def tell (s : Session κ ω) (what : Happening) : Session κ ω :=
  { s with monitor := Monitor.hear s.monitor s.core what }

/-- Answers a system call. -/
def serve (s : Session κ ω) : Session κ ω :=
  match answer s.core with
  | some bytes => { s with console := bytes.foldl Console.print s.console }
  | none => s.tell (.ignoredCall (Host.callArgs s.core).1)

/-- Lets the core make a step, and counts its cost. -/
def stepCore (s : Session κ ω) : Session κ ω × Except Fault Unit :=
  let s := s.tell .stepping
  let ran := Core.step s.core
  let s := { s with core := ran.state }.tell .stepped
  match ran.result with
  | .error fault => (s, .error fault)
  | .ok n => ({ s with cycles := s.cycles + n }, .ok ())

/-- Stops the core at the end of a run. -/
def stopCore (s : Session κ ω) : Session κ ω := { s with core := Core.stop s.core }

/-- Runs the program to its end, but for at most the given number of steps. A
machine whose interrupts are off when it halts stays halted, and its run is over
too. A run that has not come to its end has no result. -/
def runSteps : Nat → Session κ ω → Session κ ω × Option (Except Fault Unit)
  | 0, s => (s, none)
  | steps + 1, s =>
    if !Core.canRun s.core then (s.stopCore, some (.ok ()))
    else if Core.isHalted s.core && !Core.interruptsEnabled s.core then
      ((s.tell .haltedForGood).stopCore, some (.ok ()))
    else
      match s.stepCore with
      | (s, .error fault) => (s, some (.error fault))
      | (s, .ok ()) =>
        let (trap, core) := Host.takeTrap s.core
        let s := { s with core }
        match trap with
        | none => runSteps steps s
        | some .call => runSteps steps s.serve
        | some .finish =>
          (({ s with finished := true }.tell (.finished s.cycles)).stopCore, some (.ok ()))

/-- Runs the program. A session runs once. -/
def run (s : Session κ ω) (steps : Nat) : Session κ ω × Option (Except Fault Unit) :=
  if s.hasRun then (s, some (.error (.misuse "CP/M session has already run")))
  else runSteps steps { s with hasRun := true, core := Core.start s.core }

end Session

end Retrocore.Cpm
