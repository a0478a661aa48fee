import Retrocore.I8080.Step
import Retrocore.Lmc.Machine
import Retrocore.Lr35902.Step
import Retrocore.Narration.Journal
import Retrocore.Synacor.Machine
import Retrocore.Z80.Step

/-!
# What machines say of their steps

Whatever is to be said of a step can be said before it is made, from the state
alone: which interrupt is serviced, which instruction runs, and what it does to
the ports. Only writes to the memory are noted as they happen, by a mapper that
stands in front of the cells.
-/

namespace Retrocore.Narration

open Text

/-! ## Writes to the memory -/

/-- A mapper that lets everything through and notes the writes. -/
structure WriteTap where
  remarks : Array Remark := #[]

instance {κ : Type} [Inhabited κ] [ToString κ] : Mapper WriteTap κ where
  read tap cells a := (cells.read a, tap, cells)
  write tap cells a v :=
    let text := s!"Mem: writing {v} to {hex 4 (a.toNat % cells.size)}"
    (⟨tap.remarks.push ⟨.trace, .memory, text⟩⟩, cells.write a v)

/-- What was noted of the writes to a memory so far. -/
def writesTo {κ : Type} (m : Memory WriteTap κ) : Array Remark := m.mapper.elim #[] (·.remarks)

/-! ## Machines -/

/-- A machine whose steps can be narrated. -/
class Narrated (κ : Type) where
  /-- What is to be said of the next step. -/
  foretell : κ → List Remark
  /-- What was noted of the writes to the memory so far, oldest first. -/
  writes : κ → Array Remark

/-- An instruction that is about to run. -/
def running (isa : Isa) (address instruction : String) : Remark :=
  ⟨.trace, .machine isa, s!"{address}: {instruction}"⟩

/-- Something that the user of a machine may want to know. -/
def aside (isa : Isa) (text : String) : Remark := ⟨.debug, .machine isa, text⟩

/-- What an input from a port will read, unless it is refused. -/
def portIn {δ : Type} [Observer δ Byte Byte] (p : Ports δ) (port : Byte) : List Remark :=
  match (p.read port).2 with
  | .ok v => [⟨.trace, .ports, s!"Port: in {hex8 v} from {hex8 port}"⟩]
  | .error _ => []

def portOut (port v : Byte) : List Remark :=
  [⟨.trace, .ports, s!"Port: out {hex8 v} to {hex8 port}"⟩]

section I8080

variable {μ δ : Type} [Mapper μ Byte] [Observer δ Byte Byte]

/-- What is to be said of an instruction that has just been read. -/
def ofI8080 (m : I8080.Machine μ δ) : I8080.Instruction → List Remark
  | .hlt => [aside .i8080 s!"I8080: halted at {hex16 (m.regs.pc - 1)}"]
  | .di => [aside .i8080 "I8080: interrupts disabled"]
  | .ei => [aside .i8080 "I8080: interrupts enabled"]
  | .inp port => portIn m.ports port
  | .out port => portOut port m.regs.a
  | _ => []

def foretellI8080 (m : I8080.Machine μ δ) : List Remark :=
  match m.action with
  | .service opcode =>
    let (instruction, operands) := I8080.decodeOpcode opcode (m.memory.stream m.regs.pc)
    aside .i8080 s!"I8080: servicing interrupt with {hex8 opcode}" ::
      ofI8080 (m.advance operands) instruction
  | .idle => []
  | .run =>
    let d := m.fetched
    running .i8080 (hex16 m.regs.pc) d.instruction.text ::
      ofI8080 (m.advance d.length) d.instruction

instance : Narrated (I8080.Machine WriteTap δ) where
  foretell := foretellI8080
  writes m := writesTo m.memory

end I8080

section Z80

variable {μ δ : Type} [Mapper μ Byte] [Observer δ Byte Byte]

/-- What is to be said of an instruction that has just been read. -/
def ofZ80 (m : Z80.Machine μ δ) : Z80.Instruction → List Remark
  | .halt => [aside .z80 s!"Z80: halted at {hex16 (m.regs.pc - 1)}"]
  | .di => [aside .z80 "Z80: interrupts disabled"]
  | .ei => [aside .z80 "Z80: interrupts enabled"]
  | .inImm port => portIn m.ports port
  | .inC _ => portIn m.ports m.regs.c
  | .outImm port => portOut port m.regs.a
  | .outC src => portOut m.regs.c (src.elim 0 m.reg)
  | .block b =>
    match b.kind with
    | .inp => portIn m.ports m.regs.c
    | .out => portOut m.regs.c (m.memory.value m.regs.hl)
    | .ld | .cp => []
  | _ => []

def foretellZ80 (m : Z80.Machine μ δ) : List Remark :=
  match m.action with
  | .nmi => [aside .z80 s!"Z80: servicing NMI at {hex16 m.regs.pc}"]
  | .service byte =>
    aside .z80 s!"Z80: servicing mode {m.mode.name} interrupt with {hex8 byte}" ::
      match m.mode, m.supplied byte with
      | .zero, .ok d => ofZ80 (m.advance (d.length - 1)) d.instruction
      | _, _ => []
  | .idle => []
  | .run =>
    match m.fetched with
    | .ok d =>
      running .z80 (hex16 m.regs.pc) (d.instruction.textAt (some m.regs.pc)) ::
        ofZ80 (m.advance d.length) d.instruction
    | .error _ => []

instance : Narrated (Z80.Machine WriteTap δ) where
  foretell := foretellZ80
  writes m := writesTo m.memory

end Z80

/-! The other machines have no numbered ports to tell of. -/

def foretellLr35902 {μ : Type} [Mapper μ Byte] (m : Lr35902.Machine μ) : List Remark :=
  match m.action with
  | .service vector => [aside .lr35902 s!"LR35902: servicing interrupt at {hex8 vector}"]
  | .idle => []
  | .run =>
    match m.fetched with
    | .error _ => []
    | .ok d =>
      let behind := m.regs.pc + UInt16.ofNat d.length
      running .lr35902 (hex16 m.regs.pc) (d.instruction.textAt (some m.regs.pc)) ::
        match d.instruction with
        | .stop | .halt =>
          [aside .lr35902 s!"LR35902: {d.instruction.textAt none} at {hex16 behind}"]
        | .di => [aside .lr35902 "LR35902: interrupts disabled"]
        | .ei => [aside .lr35902 "LR35902: interrupts enabled"]
        | _ => []

instance : Narrated (Lr35902.Machine WriteTap) where
  foretell := foretellLr35902
  writes m := writesTo m.memory

def foretellLmc {μ δ : Type} [Mapper μ Word] [Observer δ Lmc.Port Word] (m : Lmc.Machine μ δ) :
    List Remark :=
  if m.halted then []
  else
    match m.fetched with
    | .error _ => []
    | .ok d =>
      let address := decimal 2 m.pc.toNat
      running .lmc address d.instruction.text ::
        match d.instruction with
        | .hlt | .dat _ => [aside .lmc s!"LMC: halted at {address}"]
        | _ => []

instance {δ : Type} [Observer δ Lmc.Port Word] : Narrated (Lmc.Machine WriteTap δ) where
  foretell := foretellLmc
  writes m := writesTo m.memory

def foretellSynacor {μ δ : Type} [Mapper μ Word] [Observer δ Byte Byte] (m : Synacor.Machine μ δ) :
    List Remark :=
  if m.halted then []
  else
    match m.fetched with
    | .error _ => []
    | .ok d =>
      running .synacor (hex16 m.pc) d.instruction.text ::
        match d.instruction, m.stack with
        | .halt, _ => [aside .synacor s!"Synacor: halted at {hex16 m.pc}"]
        | .ret, [] => [aside .synacor "Synacor: ret with an empty stack, halting"]
        | _, _ => []

instance {δ : Type} [Observer δ Byte Byte] : Narrated (Synacor.Machine WriteTap δ) where
  foretell := foretellSynacor
  writes m := writesTo m.memory

end Retrocore.Narration
