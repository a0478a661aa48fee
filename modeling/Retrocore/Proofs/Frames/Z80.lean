import Retrocore.Proofs.Memory.Reads
import Retrocore.Z80.Step

/-!
# What instructions of the Z80 leave alone

The program counter moves only on branches and, back to the instruction itself,
in block instructions that repeat. The latches that decide about interrupts are
changed by HALT, RETN, DI, EI and IM and by nothing else; `Control` gathers them,
and `control_step` says what a whole step makes of them.
-/

namespace Retrocore.Z80

/-- Jumps, calls, returns and restarts. -/
def Instruction.isBranch : Instruction → Bool
  | .jp .. | .jpAt _ | .jr .. | .djnz _ | .call .. | .ret _ | .reti | .retn | .rst _ => true
  | _ => false

/-- Block instructions that go back to themselves until they are done. -/
def Instruction.repeats : Instruction → Bool
  | .block b => b.repeating
  | _ => false

/-- The latches that decide what the processor does next. -/
structure Control where
  iff1 : Bool
  iff2 : Bool
  mode : InterruptMode
  halted : Bool
  stopped : Bool
  pending : Option Byte
  nmiPending : Bool
  deriving DecidableEq, Repr

/-- What an instruction makes of the latches. -/
def Instruction.controlAfter (c : Control) : Instruction → Control
  | .halt => { c with halted := true }
  | .retn => { c with iff1 := c.iff2 }
  | .di => { c with iff1 := false, iff2 := false }
  | .ei => { c with iff1 := true, iff2 := true }
  | .im mode => { c with mode := .ofNumber mode }
  | _ => c

/-- What a step makes of the latches before it runs an instruction. -/
def Machine.Action.controlAfter (c : Control) : Machine.Action → Control
  | .nmi => { c with nmiPending := false, halted := false, iff1 := false, iff2 := c.iff1 }
  | .service _ => { c with iff1 := false, iff2 := false, halted := false, pending := none }
  | .idle | .run => c

/-- No instruction touches the latch of requests. -/
theorem Instruction.pending_controlAfter (i : Instruction) (c : Control) :
    (i.controlAfter c).pending = c.pending := by
  cases i <;> rfl

/-- No step stops the processor. -/
theorem Instruction.stopped_controlAfter (i : Instruction) (c : Control) :
    (i.controlAfter c).stopped = c.stopped := by
  cases i <;> rfl

/-- Servicing does not start a stopped processor, nor stop it. -/
theorem Machine.Action.stopped_controlAfter (action : Machine.Action) (c : Control) :
    (action.controlAfter c).stopped = c.stopped := by
  cases action <;> rfl

/-- No instruction requests a non-maskable interrupt, or takes the request back. -/
theorem Instruction.nmiPending_controlAfter (i : Instruction) (c : Control) :
    (i.controlAfter c).nmiPending = c.nmiPending := by
  cases i <;> rfl

/-- Only EI and DI touch `iff2`. -/
theorem Instruction.iff2_controlAfter {i : Instruction} (hei : i ≠ .ei) (hdi : i ≠ .di)
    (c : Control) : (i.controlAfter c).iff2 = c.iff2 := by
  cases i with
  | ei => exact absurd rfl hei
  | di => exact absurd rfl hdi
  | _ => rfl

/-- Besides EI and DI only RETN touches `iff1`, which it copies from `iff2`. -/
theorem Instruction.iff1_controlAfter {i : Instruction} (hei : i ≠ .ei) (hdi : i ≠ .di)
    (c : Control) :
    (i.controlAfter c).iff1 = if i = .retn then c.iff2 else c.iff1 := by
  cases i with
  | ei => exact absurd rfl hei
  | di => exact absurd rfl hdi
  | _ => rfl

namespace Machine

variable {μ δ : Type} (m : Machine μ δ)

def control : Control :=
  ⟨m.iff1, m.iff2, m.mode, m.halted, m.stopped, m.pending, m.nmiPending⟩

@[simp] theorem control_setReg (which : Reg) (v : Byte) :
    (m.setReg which v).control = m.control := by
  cases which <;> rfl

@[simp] theorem control_setPair (p : Pair) (v : Word) :
    (m.setPair p v).control = m.control := by
  cases p <;> rfl

@[simp] theorem control_again (b : Block) (more : Bool) :
    (m.again b more).state.control = m.control := by
  unfold again
  split <;> rfl

/-- The non-maskable interrupt comes first. -/
theorem action_eq_nmi_iff : m.action = .nmi ↔ m.nmiPending = true := by
  unfold action
  cases m.nmiPending with
  | true => simp
  | false => cases m.iff1 <;> cases m.pending <;> cases m.halted <;> simp

/-- A request is serviced exactly if there is one, interrupts are let through,
and no non-maskable interrupt comes first. -/
theorem action_eq_service_iff (byte : Byte) :
    m.action = .service byte ↔
      m.pending = some byte ∧ m.iff1 = true ∧ m.nmiPending = false := by
  unfold action
  cases m.nmiPending with
  | true => simp
  | false => cases m.iff1 <;> cases m.pending <;> cases m.halted <;> simp

variable {m} in
/-- Nothing is serviced while IFF1 is clear. -/
theorem action_ne_service (hshut : m.iff1 = false) (byte : Byte) :
    m.action ≠ .service byte := by
  intro h
  obtain ⟨_, hiff1, _⟩ := (m.action_eq_service_iff byte).mp h
  rw [hshut] at hiff1
  cases hiff1

@[simp] theorem pc_setReg (which : Reg) (v : Byte) :
    (m.setReg which v).regs.pc = m.regs.pc := by
  cases which <;> rfl

@[simp] theorem pc_setPair (p : Pair) (v : Word) :
    (m.setPair p v).regs.pc = m.regs.pc := by
  cases p <;> rfl

@[simp] theorem pc_jump (address : Word) : (m.jump address).regs.pc = address := rfl

/-- A block instruction that does not repeat goes on. -/
theorem pc_again {b : Block} (h : b.repeating = false) (more : Bool) :
    (m.again b more).state.regs.pc = m.regs.pc := by
  unfold again
  rw [h, Bool.false_and]
  rfl

variable [Mapper μ Byte]

@[simp] theorem pc_assign (p : Place) (v : Byte) :
    (m.assign p v).regs.pc = m.regs.pc := by
  cases p with
  | reg which => exact m.pc_setReg which v
  | _ => rfl

@[simp] theorem pc_assignCopy (target : Place) (copy : Option Reg) (v : Byte) :
    (m.assignCopy target copy v).regs.pc = m.regs.pc := by
  cases copy with
  | none => exact m.pc_assign target v
  | some which => exact (pc_setReg _ which v).trans (m.pc_assign target v)

@[simp] theorem control_assign (p : Place) (v : Byte) :
    (m.assign p v).control = m.control := by
  cases p with
  | reg which => exact m.control_setReg which v
  | _ => rfl

@[simp] theorem control_assignCopy (target : Place) (copy : Option Reg) (v : Byte) :
    (m.assignCopy target copy v).control = m.control := by
  cases copy with
  | none => exact m.control_assign target v
  | some which => exact (control_setReg _ which v).trans (m.control_assign target v)

/-! ## Quiet memories

Where reads change nothing, they leave the machine as it was. -/

section Quiet

variable {m : Machine μ δ} (h : m.memory.Quiet)

include h

/-- Where reads change nothing, a read gives the value of the cell and the same
machine. -/
theorem read_of_quiet (address : Word) : m.read address = (m.memory.value address, m) :=
  congrArg (fun memory => (m.memory.value address, { m with memory })) (h address)

theorem readWord_of_quiet (address : Word) :
    m.readWord address = (wordOf (m.memory.value (address + 1)) (m.memory.value address), m) := by
  unfold readWord
  rw [h.readWord]

/-- POP then moves the stack pointer alone. -/
theorem pop_of_quiet :
    m.pop = (wordOf (m.memory.value (m.regs.sp + 1)) (m.memory.value m.regs.sp),
      { m with regs.sp := m.regs.sp + 2 }) := by
  unfold pop
  rw [readWord_of_quiet h]

/-- Bytes that are looked at leave no trace then. -/
theorem readAhead_of_quiet (cells : Nat) : m.readAhead cells = m := by
  unfold readAhead
  rw [h.afterReads]

/-- Reading what stands at the program counter only moves it. -/
theorem advance_of_quiet (cells : Nat) :
    m.advance cells = m.jump (m.regs.pc + UInt16.ofNat cells) := by
  unfold advance
  rw [readAhead_of_quiet h]

end Quiet

variable [Observer δ Byte Byte]

/-- A round by itself goes on behind the instruction. -/
theorem pc_blockRound {b : Block} (h : b.repeating = false) :
    (m.blockRound b).state.regs.pc = m.regs.pc := by
  unfold blockRound
  cases b.kind with
  | ld => exact pc_again _ h _
  | cp => exact pc_again _ h _
  | inp =>
    simp only [blockIn]
    split
    next => rfl
    next => exact pc_again _ h _
  | out =>
    simp only [blockOut]
    split
    next => rfl
    next => exact (pc_again _ h _).trans (pc_setPair _ .hl _)

/-- Only branches and repeating block instructions move the program counter. -/
theorem pc_execute {i : Instruction} (hbranch : i.isBranch = false)
    (hrepeats : i.repeats = false) :
    (m.execute i).state.regs.pc = m.regs.pc := by
  cases i with
  | ld dst src => exact pc_assign _ dst _
  | ldPair p v => exact m.pc_setPair p v
  | loadPair p address => exact pc_setPair _ p _
  | ldSp p => exact m.pc_setPair .sp _
  | pop p => exact pc_setPair _ p _
  | exSp p => exact pc_setPair _ p _
  | inc target => exact pc_assign _ target _
  | dec target => exact pc_assign _ target _
  | incPair p => exact m.pc_setPair p _
  | decPair p => exact m.pc_setPair p _
  | addPair dst src => exact pc_setPair _ dst _
  | adcHl p => exact pc_setPair _ .hl _
  | sbcHl p => exact pc_setPair _ .hl _
  | rot op target copy => exact pc_assignCopy _ target copy _
  | res n target copy => exact pc_assignCopy _ target copy _
  | set n target copy => exact pc_assignCopy _ target copy _
  | inImm port =>
    simp only [execute]
    split <;> rfl
  | inC dst =>
    -- without a destination the value only sets flags
    simp only [execute]
    split
    next =>
      cases dst with
      | none => rfl
      | some which => exact pc_setReg _ which _
    next => rfl
  | block b => exact m.pc_blockRound hrepeats
  | jp when? address => cases hbranch
  | jpAt p => cases hbranch
  | jr when? d => cases hbranch
  | djnz d => cases hbranch
  | call when? address => cases hbranch
  | ret when? => cases hbranch
  | reti => cases hbranch
  | retn => cases hbranch
  | rst address => cases hbranch
  | _ => rfl

/-- Block instructions leave the latches alone. -/
theorem control_blockRound (b : Block) :
    (m.blockRound b).state.control = m.control := by
  unfold blockRound
  cases b.kind with
  | ld => exact control_again _ b _
  | cp => exact control_again _ b _
  | inp =>
    simp only [blockIn]
    split
    next => rfl
    next => exact control_again _ b _
  | out =>
    simp only [blockOut]
    split
    next => rfl
    next => exact (control_again _ b _).trans (control_setPair _ .hl _)

/-- HALT, RETN, DI, EI and IM are the instructions that touch the latches, also
if the instruction fails. -/
theorem control_execute (i : Instruction) :
    (m.execute i).state.control = i.controlAfter m.control := by
  cases i with
  | ld dst src => exact control_assign _ dst _
  | ldPair p v => exact m.control_setPair p v
  | loadPair p address => exact control_setPair _ p _
  | ldSp p => exact m.control_setPair .sp _
  | pop p => exact control_setPair _ p _
  | exSp p => exact control_setPair _ p _
  | inc target => exact control_assign _ target _
  | dec target => exact control_assign _ target _
  | incPair p => exact m.control_setPair p _
  | decPair p => exact m.control_setPair p _
  | addPair dst src => exact control_setPair _ dst _
  | adcHl p => exact control_setPair _ .hl _
  | sbcHl p => exact control_setPair _ .hl _
  | rot op target copy => exact control_assignCopy _ target copy _
  | res n target copy => exact control_assignCopy _ target copy _
  | set n target copy => exact control_assignCopy _ target copy _
  | inImm port =>
    simp only [execute]
    split <;> rfl
  | inC dst =>
    simp only [execute]
    split
    next =>
      cases dst with
      | none => rfl
      | some which => exact control_setReg _ which _
    next => rfl
  | jp when? address =>
    simp only [execute]
    split <;> rfl
  | jr when? d =>
    simp only [execute]
    split <;> rfl
  | djnz d =>
    simp only [execute]
    split <;> rfl
  | call when? address =>
    simp only [execute]
    split <;> rfl
  | ret when? =>
    simp only [execute]
    split <;> rfl
  | block b => exact m.control_blockRound b
  | _ => rfl

/-! ## Steps -/

variable {m}

/-- A non-maskable request is serviced before anything else. -/
theorem step_of_nmi (hnmi : m.action = .nmi) : m.step = ⟨m.serviceNmi, .ok Cycles.nmi⟩ := by
  unfold step
  simp only [hnmi]

/-- A request that is let through is serviced. -/
theorem step_of_service {byte : Byte} (hservice : m.action = .service byte) :
    m.step = m.service byte := by
  unfold step
  simp only [hservice]

/-- A halted processor refreshes, and nothing more. -/
theorem step_of_idle (hidle : m.action = .idle) :
    m.step = ⟨m.refresh 1, .ok Cycles.halted⟩ := by
  unfold step
  simp only [hidle]

/-- What is decoded is run, with the program counter behind it and the refresh
counter advanced. -/
theorem step_of_fetched (hrun : m.action = .run) {d : Decoded Instruction}
    (hd : m.fetched = .ok d) :
    m.step =
      (((m.advance d.length).refresh d.fetches).execute d.instruction).plus
        (Cycles.of d) := by
  unfold step
  simp only [hrun, hd]

/-- A failed decode reads its cells and advances the refresh counter, and that is
all. -/
theorem step_of_undecodable (hrun : m.action = .run) {u : Undecodable}
    (hu : m.fetched = .error u) :
    m.step = ⟨(m.readAhead u.length).refresh u.fetches, .error u.fault⟩ := by
  unfold step
  simp only [hrun, hu]

/-- The instruction that was decoded, if one was. -/
def instruction? (decoded : Except Undecodable (Decoded Instruction)) : Option Instruction :=
  decoded.toOption.map Decoded.instruction

variable (m)

/-- What an interrupting device makes the processor run: an instruction only in
mode zero. -/
def suppliedInstruction? (byte : Byte) : Option Instruction :=
  match m.mode with
  | .zero => instruction? (m.supplied byte)
  | .one | .two => none

/-- The instruction that the next step runs: the one at the program counter, or
the one that an interrupting device supplies. -/
def executed? : Option Instruction :=
  match m.action with
  | .nmi | .idle => none
  | .service byte => m.suppliedInstruction? byte
  | .run => instruction? m.fetched

/-- Servicing does to the latches what it does by itself, and then what the instruction
does that a device has supplied. -/
theorem control_service (byte : Byte) :
    (m.service byte).state.control =
      (m.suppliedInstruction? byte).elim
        ((Action.service byte).controlAfter m.control)
        (·.controlAfter ((Action.service byte).controlAfter m.control)) := by
  unfold service suppliedInstruction?
  generalize m.supplied byte = decoded
  -- the mode is read from the machine that has shut interrupts off already
  obtain ⟨regs, flags, iff1, iff2, mode, halted, stopped, pending, nmi, pc, ports, memory⟩ := m
  cases mode with
  | zero =>
    cases decoded with
    | ok d => exact control_execute _ d.instruction
    | error u => rfl
  | one => rfl
  | two => rfl

/-- What a step makes of the latches: first what the processor does of itself,
then what the instruction does. -/
theorem control_step :
    m.step.state.control =
      m.executed?.elim (m.action.controlAfter m.control)
        (·.controlAfter (m.action.controlAfter m.control)) := by
  unfold executed?
  cases haction : m.action with
  | nmi =>
    rw [step_of_nmi haction]
    rfl
  | service byte =>
    rw [step_of_service haction]
    exact m.control_service byte
  | idle =>
    rw [step_of_idle haction]
    rfl
  | run =>
    cases hfetched : m.fetched with
    | ok d =>
      rw [step_of_fetched haction hfetched]
      exact control_execute _ d.instruction
    | error u =>
      rw [step_of_undecodable haction hfetched]
      rfl

/-- No instruction touches the latch of requests: what becomes of it is decided
before one is run. -/
theorem pending_step : m.step.state.pending = (m.action.controlAfter m.control).pending := by
  refine (congrArg Control.pending m.control_step).trans ?_
  cases m.executed? with
  | none => rfl
  | some i => exact i.pending_controlAfter _

/-- A processor neither stops nor starts by itself. -/
theorem stopped_step : m.step.state.stopped = m.stopped := by
  refine (congrArg Control.stopped m.control_step).trans ?_
  refine Eq.trans ?_ (m.action.stopped_controlAfter m.control)
  cases m.executed? with
  | none => rfl
  | some i => exact i.stopped_controlAfter _

/-- A non-maskable request waits until it is serviced. -/
theorem nmiPending_step :
    m.step.state.nmiPending = (m.action.controlAfter m.control).nmiPending := by
  refine (congrArg Control.nmiPending m.control_step).trans ?_
  cases m.executed? with
  | none => rfl
  | some i => exact i.nmiPending_controlAfter _

end Machine

end Retrocore.Z80
