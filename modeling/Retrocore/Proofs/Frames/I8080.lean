import Retrocore.I8080.Step
import Retrocore.Proofs.Memory.Reads

/-!
# What instructions of the 8080 leave alone

The program counter moves only on branches: every other instruction leaves it
behind the cells that the instruction was read from. The latches that decide
about interrupts are changed by HLT, DI and EI and by nothing else; `Control`
gathers them, and `control_step` says what a whole step makes of them.
-/

namespace Retrocore.I8080

/-- Jumps, calls, returns and restarts. -/
def Instruction.isBranch : Instruction → Bool
  | .jmp .. | .call .. | .ret _ | .rst _ | .pchl => true
  | _ => false

/-- The latches that decide what the processor does next. -/
structure Control where
  inte : Bool
  halted : Bool
  stopped : Bool
  pending : Option Byte
  deriving DecidableEq, Repr

/-- What an instruction makes of the latches. -/
def Instruction.controlAfter (c : Control) : Instruction → Control
  | .hlt => { c with halted := true }
  | .di => { c with inte := false }
  | .ei => { c with inte := true }
  | _ => c

/-- What a step makes of the latches before it runs an instruction. -/
def Machine.Action.controlAfter (c : Control) : Machine.Action → Control
  | .service _ => { c with inte := false, halted := false, pending := none }
  | .idle | .run => c

/-- No instruction touches the latch of requests. -/
theorem Instruction.pending_controlAfter (i : Instruction) (c : Control) :
    (i.controlAfter c).pending = c.pending := by
  cases i <;> rfl

/-- No step stops the processor. -/
theorem Instruction.stopped_controlAfter (i : Instruction) (c : Control) :
    (i.controlAfter c).stopped = c.stopped := by
  cases i <;> rfl

/-- Servicing does not start a stopped processor, nor stop it. -/
theorem Machine.Action.stopped_controlAfter (action : Machine.Action) (c : Control) :
    (action.controlAfter c).stopped = c.stopped := by
  cases action <;> rfl

/-- Only EI lets interrupts through. -/
theorem Instruction.inte_controlAfter {i : Instruction} (hei : i ≠ .ei)
    {c : Control} (hinte : c.inte = false) : (i.controlAfter c).inte = false := by
  cases i with
  | ei => exact absurd rfl hei
  | di => rfl
  | _ => exact hinte

namespace Machine

variable {μ δ : Type} (m : Machine μ δ)

def control : Control := ⟨m.inte, m.halted, m.stopped, m.pending⟩

@[simp] theorem control_setPair (p : Pair) (v : Word) :
    (m.setPair p v).control = m.control := by
  cases p <;> rfl

@[simp] theorem control_setStackPair (p : StackPair) (v : Word) :
    (m.setStackPair p v).control = m.control := by
  cases p <;> rfl

/-- A request is serviced exactly if there is one and interrupts are let
through. -/
theorem action_eq_service_iff (opcode : Byte) :
    m.action = .service opcode ↔ m.pending = some opcode ∧ m.inte = true := by
  unfold action
  cases m.inte with
  | false => cases m.halted <;> simp
  | true => cases m.pending <;> cases m.halted <;> simp

variable {m} in
/-- Nothing is serviced while INTE is clear. -/
theorem action_ne_service (hshut : m.inte = false) (opcode : Byte) :
    m.action ≠ .service opcode := by
  intro h
  obtain ⟨_, hinte⟩ := (m.action_eq_service_iff opcode).mp h
  rw [hshut] at hinte
  cases hinte

@[simp] theorem pc_setPair (p : Pair) (v : Word) :
    (m.setPair p v).regs.pc = m.regs.pc := by
  cases p <;> rfl

@[simp] theorem pc_setStackPair (p : StackPair) (v : Word) :
    (m.setStackPair p v).regs.pc = m.regs.pc := by
  cases p <;> rfl

variable [Mapper μ Byte]

@[simp] theorem pc_setReg (r : Reg) (v : Byte) :
    (m.setReg r v).regs.pc = m.regs.pc := by
  cases r <;> rfl

@[simp] theorem control_setReg (r : Reg) (v : Byte) :
    (m.setReg r v).control = m.control := by
  cases r <;> rfl

/-! ## Quiet memories

Where reads change nothing, they leave the machine as it was. -/

section Quiet

variable {m : Machine μ δ} (h : m.memory.Quiet)

include h

/-- Where reads change nothing, a read gives the value of the cell and the same
machine. -/
theorem read_of_quiet (address : Word) : m.read address = (m.memory.value address, m) :=
  congrArg (fun memory => (m.memory.value address, { m with memory })) (h address)

theorem readWord_of_quiet (address : Word) :
    m.readWord address = (wordOf (m.memory.value (address + 1)) (m.memory.value address), m) := by
  unfold readWord
  rw [h.readWord]

/-- POP then moves the stack pointer alone. -/
theorem pop_of_quiet :
    m.pop = (wordOf (m.memory.value (m.regs.sp + 1)) (m.memory.value m.regs.sp),
      { m with regs.sp := m.regs.sp + 2 }) := by
  unfold pop
  rw [readWord_of_quiet h]

/-- Reading what stands at the program counter only moves it. -/
theorem advance_of_quiet (cells : Nat) :
    m.advance cells = m.jump (m.regs.pc + UInt16.ofNat cells) := by
  unfold advance
  rw [h.afterReads]
  rfl

end Quiet

variable [Observer δ Byte Byte]

/-- Only branches move the program counter. -/
theorem pc_execute {i : Instruction} (h : i.isBranch = false) :
    (m.execute i).state.regs.pc = m.regs.pc := by
  cases i with
  | lxi p v => exact m.pc_setPair p v
  | lhld address => exact pc_setPair _ .h _
  | inx p => exact m.pc_setPair p _
  | dcx p => exact m.pc_setPair p _
  | inr r => exact pc_setReg _ r _
  | dcr r => exact pc_setReg _ r _
  | mvi r v => exact m.pc_setReg r v
  | dad p => exact pc_setPair _ .h _
  | mov dst src => exact pc_setReg _ dst _
  | pop p => exact pc_setStackPair _ p _
  | inp port =>
    simp only [execute]
    split <;> rfl
  | jmp when? address => cases h
  | call when? address => cases h
  | ret when? => cases h
  | rst n => cases h
  | pchl => cases h
  | _ => rfl

/-- HLT, DI and EI are the instructions that touch the latches, also if the
instruction fails. -/
theorem control_execute (i : Instruction) :
    (m.execute i).state.control = i.controlAfter m.control := by
  cases i with
  | lxi p v => exact m.control_setPair p v
  | lhld address => exact control_setPair _ .h _
  | inx p => exact m.control_setPair p _
  | dcx p => exact m.control_setPair p _
  | inr r => exact control_setReg _ r _
  | dcr r => exact control_setReg _ r _
  | mvi r v => exact m.control_setReg r v
  | dad p => exact control_setPair _ .h _
  | mov dst src => exact control_setReg _ dst _
  | pop p => exact control_setStackPair _ p _
  | ret when? =>
    cases when? with
    | none => rfl
    | some cc =>
      simp only [execute]
      split <;> rfl
  | jmp when? address =>
    cases when? with
    | none => rfl
    | some cc =>
      simp only [execute]
      split <;> rfl
  | call when? address =>
    cases when? with
    | none => rfl
    | some cc =>
      simp only [execute]
      split <;> rfl
  | inp port =>
    simp only [execute]
    split <;> rfl
  | _ => rfl

/-! ## Steps -/

/-- The instruction at the program counter is run once it has been read, with the
program counter behind it. -/
theorem step_of_fetched {m : Machine μ δ} (hrun : m.action = .run)
    {d : Decoded Instruction} (hd : m.fetched = d) :
    m.step = (m.advance d.length).execute d.instruction := by
  unfold step
  simp only [hrun, hd]

/-- A request that is let through is serviced. -/
theorem step_of_service {m : Machine μ δ} {opcode : Byte}
    (hservice : m.action = .service opcode) : m.step = m.service opcode := by
  unfold step
  simp only [hservice]

/-- A halted processor idles for four cycles. -/
theorem step_of_idle {m : Machine μ δ} (hidle : m.action = .idle) :
    m.step = ⟨m, .ok 4⟩ := by
  unfold step
  simp only [hidle]

/-- The instruction that the next step runs: the one at the program counter, or
the one that an interrupting device puts on the bus. -/
def executed? : Option Instruction :=
  match m.action with
  | .service opcode => some (decodeOpcode opcode (m.memory.stream m.regs.pc)).1
  | .idle => none
  | .run => some m.fetched.instruction

/-- What a step makes of the latches: first what the processor does of itself,
then what the instruction does. -/
theorem control_step :
    m.step.state.control =
      m.executed?.elim (m.action.controlAfter m.control)
        (·.controlAfter (m.action.controlAfter m.control)) := by
  unfold executed?
  cases haction : m.action with
  | service opcode =>
    rw [step_of_service haction]
    exact control_execute _ _
  | idle =>
    rw [step_of_idle haction]
    rfl
  | run =>
    rw [step_of_fetched haction rfl]
    exact control_execute _ _

/-- No instruction touches the latch of requests: what becomes of it is decided
before one is run. -/
theorem pending_step : m.step.state.pending = (m.action.controlAfter m.control).pending := by
  refine (congrArg Control.pending m.control_step).trans ?_
  cases m.executed? with
  | none => rfl
  | some i => exact i.pending_controlAfter _

/-- A processor neither stops nor starts by itself. -/
theorem stopped_step : m.step.state.stopped = m.stopped := by
  refine (congrArg Control.stopped m.control_step).trans ?_
  refine Eq.trans ?_ (m.action.stopped_controlAfter m.control)
  cases m.executed? with
  | none => rfl
  | some i => exact i.stopped_controlAfter _

end Machine

end Retrocore.I8080
