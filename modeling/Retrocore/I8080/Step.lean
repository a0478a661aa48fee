import Retrocore.I8080.Machine

/-!
# Running the 8080

`execute` is the effect and the cost of one instruction, and `step` what the
processor does next: it services a requested interrupt if it may, stays halted,
or runs the instruction at the program counter.
-/

namespace Retrocore.I8080.Machine

variable {μ δ : Type} [Mapper μ Byte] [Observer δ Byte Byte]

/-- The cost of an instruction that is dearer on memory than on a register. -/
def costOn (r : Reg) (onMemory onRegister : Nat) : Nat := if r = .m then onMemory else onRegister

/-- An operation on the accumulator. -/
def accumulate (m : Machine μ δ) (op : AluOp) (v : Byte) : Machine μ δ :=
  let (a, flags) := m.flags.alu op m.regs.a v
  { m with regs.a := a, flags }

/-- Rotates the accumulator. Only the carry hears of it. -/
def rotateA (m : Machine μ δ) (op : RotateOp) : Machine μ δ :=
  let (a, carry) := op.apply m.flags.carry m.regs.a
  { m with regs.a := a, flags.carry := carry }

/-- The machine after an instruction that has just been read, and what it cost.
The program counter is already behind the instruction. -/
def execute (m : Machine μ δ) : Instruction → Ran (Machine μ δ)
  | .nop => ⟨m, .ok 4⟩
  | .lxi p v => ⟨m.setPair p v, .ok 10⟩
  | .stax p => ⟨m.store (m.pair p) m.regs.a, .ok 7⟩
  | .ldax p =>
    let (v, m) := m.read (m.pair p)
    ⟨m.setA v, .ok 7⟩
  | .shld address => ⟨m.storeWord address m.regs.hl, .ok 16⟩
  | .lhld address =>
    let (v, m) := m.readWord address
    ⟨m.setPair .h v, .ok 16⟩
  | .sta address => ⟨m.store address m.regs.a, .ok 13⟩
  | .lda address =>
    let (v, m) := m.read address
    ⟨m.setA v, .ok 13⟩
  | .inx p => ⟨m.setPair p (m.pair p + 1), .ok 5⟩
  | .dcx p => ⟨m.setPair p (m.pair p - 1), .ok 5⟩
  | .inr r =>
    let (v, m) := m.load r
    let (v, flags) := m.flags.inc v
    ⟨{ m with flags }.setReg r v, .ok (costOn r 10 5)⟩
  | .dcr r =>
    let (v, m) := m.load r
    let (v, flags) := m.flags.dec v
    ⟨{ m with flags }.setReg r v, .ok (costOn r 10 5)⟩
  | .mvi r v => ⟨m.setReg r v, .ok (costOn r 10 7)⟩
  | .dad p =>
    let hl := m.regs.hl
    let v := m.pair p
    ⟨{ m with flags.carry := carriesOutOf 15 hl.toNat v.toNat false }.setPair .h (hl + v), .ok 10⟩
  | .rlc => ⟨m.rotateA .rlc, .ok 4⟩
  | .rrc => ⟨m.rotateA .rrc, .ok 4⟩
  | .ral => ⟨m.rotateA .rl, .ok 4⟩
  | .rar => ⟨m.rotateA .rr, .ok 4⟩
  | .daa =>
    let (a, flags) := m.flags.daa m.regs.a
    ⟨{ m with regs.a := a, flags }, .ok 4⟩
  | .cma => ⟨m.setA (~~~m.regs.a), .ok 4⟩
  | .stc => ⟨{ m with flags.carry := true }, .ok 4⟩
  | .cmc => ⟨{ m with flags.carry := !m.flags.carry }, .ok 4⟩
  | .mov dst src =>
    let (v, m) := m.load src
    ⟨m.setReg dst v, .ok (if dst = .m ∨ src = .m then 7 else 5)⟩
  | .hlt => ⟨{ m with halted := true }, .ok 7⟩
  | .alu op r =>
    let (v, m) := m.load r
    ⟨m.accumulate op v, .ok (costOn r 7 4)⟩
  | .aluImm op v => ⟨m.accumulate op v, .ok 7⟩
  | .ret none => ⟨m.goBack, .ok 10⟩
  | .ret (some cc) => if m.flags.satisfy cc then ⟨m.goBack, .ok 11⟩ else ⟨m, .ok 5⟩
  | .jmp none address => ⟨m.jump address, .ok 10⟩
  | .jmp (some cc) address => ⟨if m.flags.satisfy cc then m.jump address else m, .ok 10⟩
  | .call none address => ⟨m.callTo address, .ok 17⟩
  | .call (some cc) address =>
    if m.flags.satisfy cc then ⟨m.callTo address, .ok 17⟩ else ⟨m, .ok 11⟩
  | .pop p =>
    let (v, m) := m.pop
    ⟨m.setStackPair p v, .ok 10⟩
  | .push p => ⟨m.push (m.stackPair p), .ok 11⟩
  | .rst n => ⟨m.callTo (UInt16.ofNat (8 * n)), .ok 11⟩
  | .pchl => ⟨m.jump m.regs.hl, .ok 5⟩
  | .sphl => ⟨m.setPair .sp m.regs.hl, .ok 5⟩
  | .xthl =>
    let (v, m) := m.readWord m.regs.sp
    ⟨(m.storeWord m.regs.sp m.regs.hl).setPair .h v, .ok 18⟩
  | .xchg =>
    let de := m.regs.de
    ⟨(m.setPair .d m.regs.hl).setPair .h de, .ok 4⟩
  | .out port =>
    let (ports, result) := m.ports.write port m.regs.a
    ⟨{ m with ports }, result.map fun _ => 10⟩
  | .inp port =>
    match m.ports.read port with
    | (ports, .ok v) => ⟨{ m with ports }.setA v, .ok 10⟩
    | (ports, .error fault) => ⟨{ m with ports }, .error fault⟩
  | .di => ⟨{ m with inte := false }, .ok 4⟩
  | .ei => ⟨{ m with inte := true }, .ok 4⟩

/-- What the processor does next. -/
inductive Action where
  /-- Services an interrupt whose instruction has the given opcode. -/
  | service (opcode : Byte)
  | idle
  | run
  deriving DecidableEq, Repr

def action (m : Machine μ δ) : Action :=
  match m.inte, m.pending with
  | true, some opcode => .service opcode
  | _, _ => if m.halted then .idle else .run

/-- The instruction that the cells give when they are read at the program
counter. -/
def fetched (m : Machine μ δ) : Decoded Instruction := decode (m.memory.stream m.regs.pc)

/-- Runs the instruction that an interrupting device puts on the bus; its
operands are read at the program counter. -/
def service (m : Machine μ δ) (opcode : Byte) : Ran (Machine μ δ) :=
  let (instruction, operands) := decodeOpcode opcode (m.memory.stream m.regs.pc)
  let m := { m with inte := false, halted := false, pending := none }
  (m.advance operands).execute instruction

def step (m : Machine μ δ) : Ran (Machine μ δ) :=
  match m.action with
  | .service opcode => m.service opcode
  | .idle => ⟨m, .ok 4⟩
  | .run =>
    let d := m.fetched
    (m.advance d.length).execute d.instruction

instance : Core (Machine μ δ) where
  step := step
  pc m := m.regs.pc
  canRun := canRun
  isHalted m := m.halted
  interruptsEnabled m := m.inte
  interrupt := interrupt
  reset := reset
  start := start
  stop := stop
  registers m :=
    let r := m.regs
    [("a", r.a.toUInt16), ("b", r.b.toUInt16), ("c", r.c.toUInt16), ("d", r.d.toUInt16),
     ("e", r.e.toUInt16), ("h", r.h.toUInt16), ("l", r.l.toUInt16), ("sp", r.sp), ("pc", r.pc)]
  flags m :=
    let f := m.flags
    [("s", f.sign), ("z", f.zero), ("ac", f.auxCarry), ("p", f.parity), ("c", f.carry)]

end Retrocore.I8080.Machine
