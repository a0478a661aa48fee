import Retrocore.Lr35902.Cycles
import Retrocore.Lr35902.Machine

/-!
# Running the LR35902

`execute` is the effect of one instruction, and `step` what the processor does
next: it services a requested interrupt if it may, stays halted, or runs the
instruction at the program counter. EI takes effect only when the instruction
behind it is run, so that instruction is never interrupted.
-/

namespace Retrocore.Lr35902.Machine

variable {μ : Type} [Mapper μ Byte]

/-- An operation on the accumulator. -/
def accumulate (m : Machine μ) (op : AluOp) (v : Byte) : Machine μ :=
  let (a, flags) := m.flags.alu op m.regs.a v
  { m with regs.a := a, flags }

def rotateA (m : Machine μ) (op : RotateOp) : Machine μ :=
  let (a, carry) := op.apply m.flags.carry m.regs.a
  { m with regs.a := a, flags := .accumulatorRotate carry }

/-- Whether a branch is taken. A branch without a condition always is. -/
def taken (m : Machine μ) (when? : Option Condition) : Bool := when?.all m.flags.satisfy

/-- What a branch that was taken costs on top: nothing if it had no
condition. -/
def surcharge (when? : Option Condition) (cycles : Nat) : Nat := if when?.isSome then cycles else 0

/-- The machine after an instruction that has just been read, and what a branch
added to its cost. The program counter is already behind the instruction. -/
def execute (m : Machine μ) : Instruction → Machine μ × Nat
  | .nop => (m, 0)
  | .stop | .halt => ({ m with halted := true }, 0)
  | .ld dst src =>
    let (v, m) := m.operand src
    (m.assign dst v, 0)
  | .ldPair p v => (m.setPair p v, 0)
  | .storeSp address => ({ m with memory := m.memory.writeWord address m.regs.sp }, 0)
  | .ldSpHl => (m.setPair .sp m.regs.hl, 0)
  | .ldHlSp e =>
    let (v, flags) := Flags.addSp m.regs.sp e
    ({ m with flags }.setPair .hl v, 0)
  | .addHl p =>
    let (v, flags) := m.flags.add16 m.regs.hl (m.pair p)
    ({ m with flags }.setPair .hl v, 0)
  | .addSp e =>
    let (v, flags) := Flags.addSp m.regs.sp e
    ({ m with flags }.setPair .sp v, 0)
  | .incPair p => (m.setPair p (m.pair p + 1), 0)
  | .decPair p => (m.setPair p (m.pair p - 1), 0)
  | .inc target =>
    let (v, m) := m.load target
    let (v, flags) := m.flags.inc8 v
    ({ m with flags }.assign target v, 0)
  | .dec target =>
    let (v, m) := m.load target
    let (v, flags) := m.flags.dec8 v
    ({ m with flags }.assign target v, 0)
  | .rlca => (m.rotateA .rlc, 0)
  | .rrca => (m.rotateA .rrc, 0)
  | .rla => (m.rotateA .rl, 0)
  | .rra => (m.rotateA .rr, 0)
  | .daa =>
    let (a, flags) := m.flags.daa m.regs.a
    ({ m with regs.a := a, flags }, 0)
  | .cpl =>
    ({ m with regs.a := ~~~m.regs.a, flags.subtract := true, flags.halfCarry := true }, 0)
  | .scf =>
    ({ m with flags.subtract := false, flags.halfCarry := false, flags.carry := true }, 0)
  | .ccf =>
    ({ m with flags.subtract := false, flags.halfCarry := false, flags.carry := !m.flags.carry }, 0)
  | .alu op src =>
    let (v, m) := m.operand src
    (m.accumulate op v, 0)
  | .rot op target =>
    let (v, m) := m.load target
    let (v, carry) := op.apply m.flags.carry v
    ({ m with flags := .rotate v carry }.assign target v, 0)
  | .swap target =>
    let (v, m) := m.load target
    let v := v <<< 4 ||| v >>> 4
    ({ m with flags := .logical v }.assign target v, 0)
  | .bit n target =>
    let (v, m) := m.load target
    ({ m with flags := m.flags.bit n v }, 0)
  | .res n target =>
    let (v, m) := m.load target
    (m.assign target (v.withBit n false), 0)
  | .set n target =>
    let (v, m) := m.load target
    (m.assign target (v.withBit n true), 0)
  | .jp cc address =>
    if m.taken cc then (m.jump address, surcharge cc Cycles.jpTaken) else (m, 0)
  | .jpHl => (m.jump m.regs.hl, 0)
  | .jr cc d =>
    if m.taken cc then (m.jump (m.regs.pc + signExtend d), surcharge cc Cycles.jrTaken) else (m, 0)
  | .call cc address =>
    if m.taken cc then (m.callTo address, surcharge cc Cycles.callTaken) else (m, 0)
  | .ret cc => if m.taken cc then (m.goBack, surcharge cc Cycles.retTaken) else (m, 0)
  | .reti => ({ m.goBack with ime := true }, 0)
  | .rst address => (m.callTo address.toUInt16, 0)
  | .push p => (m.push (m.pair p), 0)
  | .pop p =>
    let (v, m) := m.pop
    (m.setPair p v, 0)
  | .di => ({ m with ime := false, imeScheduled := false }, 0)
  | .ei => ({ m with imeScheduled := true }, 0)

/-- What the processor does next. -/
inductive Action where
  /-- Services an interrupt with the given vector. -/
  | service (vector : Byte)
  | idle
  | run
  deriving DecidableEq, Repr

/-- A request wakes a halted processor even if it cannot be serviced. -/
def action (m : Machine μ) : Action :=
  match m.pending with
  | some vector => if m.ime then .service vector else .run
  | none => if m.halted then .idle else .run

/-- What the cells give when they are read at the program counter. -/
def fetched (m : Machine μ) : Except Undecodable (Decoded Instruction) :=
  decode (m.memory.stream m.regs.pc)

/-- Calls the handler of an interrupt. -/
def service (m : Machine μ) (vector : Byte) : Machine μ :=
  { m with ime := false, halted := false, pending := none }.callTo vector.toUInt16

/-- Reads so many cells at the program counter, which stays where it is. -/
def readAhead (m : Machine μ) (cells : Nat) : Machine μ :=
  { m with memory := m.memory.afterReads m.regs.pc cells }

/-- Reads so many cells at the program counter and moves it over them. -/
def advance (m : Machine μ) (cells : Nat) : Machine μ :=
  (m.readAhead cells).jump (m.regs.pc + UInt16.ofNat cells)

/-- Runs a decoded instruction. An EI that ran just before lands now. -/
def run (m : Machine μ) (d : Decoded Instruction) : Ran (Machine μ) :=
  let m := { m with ime := m.ime || m.imeScheduled, imeScheduled := false }
  let (m, extra) := (m.advance d.length).execute d.instruction
  ⟨m, .ok (Cycles.of d + extra)⟩

/-- Where the cells stand for nothing, the program counter stays in front of
them. -/
def step (m : Machine μ) : Ran (Machine μ) :=
  match m.action with
  | .service vector => ⟨m.service vector, .ok Cycles.interrupt⟩
  | .idle => ⟨m, .ok Cycles.halted⟩
  | .run =>
    match m.fetched with
    | .ok d => { m with halted := false }.run d
    | .error u => ⟨{ m with halted := false }.readAhead u.length, .error u.fault⟩

instance : Core (Machine μ) where
  step := step
  pc m := m.regs.pc
  canRun := canRun
  isHalted m := m.halted
  interruptsEnabled m := m.ime
  interrupt := interrupt
  reset := reset
  start := start
  stop := stop
  registers m :=
    [("af", m.pair .af), ("bc", m.pair .bc), ("de", m.pair .de), ("hl", m.pair .hl),
     ("sp", m.regs.sp), ("pc", m.regs.pc)]
  flags m :=
    let f := m.flags
    [("z", f.zero), ("n", f.subtract), ("h", f.halfCarry), ("c", f.carry)]

end Retrocore.Lr35902.Machine
