import Retrocore.Lr35902.Step
import Retrocore.Proofs.Memory.Reads

/-!
# What instructions of the LR35902 leave alone

The program counter moves only on branches. The latches that decide about
interrupts are changed by a handful of instructions, each in its own way, and by
nothing else; `Control` gathers them, and `control_execute` says what an
instruction makes of them.
-/

namespace Retrocore.Lr35902

/-- Jumps, calls, returns and restarts. -/
def Instruction.isBranch : Instruction → Bool
  | .jp .. | .jpHl | .jr .. | .call .. | .ret _ | .reti | .rst _ => true
  | _ => false

/-- The latches that decide what the processor does next. -/
structure Control where
  ime : Bool
  imeScheduled : Bool
  halted : Bool
  stopped : Bool
  pending : Option Byte
  deriving DecidableEq, Repr

/-- What an instruction makes of the latches. -/
def Instruction.controlAfter (c : Control) : Instruction → Control
  | .stop | .halt => { c with halted := true }
  | .reti => { c with ime := true }
  | .di => { c with ime := false, imeScheduled := false }
  | .ei => { c with imeScheduled := true }
  | _ => c

/-- Latches that keep interrupts shut off are kept so by all instructions but EI
and RETI. -/
theorem Instruction.controlAfter_quiet {i : Instruction} (hei : i ≠ .ei)
    (hreti : i ≠ .reti) {c : Control} (hime : c.ime = false)
    (hscheduled : c.imeScheduled = false) :
    (i.controlAfter c).ime = false ∧ (i.controlAfter c).imeScheduled = false := by
  cases i with
  | ei => exact absurd rfl hei
  | reti => exact absurd rfl hreti
  | di => exact ⟨rfl, rfl⟩
  | _ => exact ⟨hime, hscheduled⟩

/-- Only DI shuts interrupts off. -/
theorem Instruction.ime_controlAfter {i : Instruction} (hdi : i ≠ .di)
    {c : Control} (hime : c.ime = true) : (i.controlAfter c).ime = true := by
  cases i with
  | di => exact absurd rfl hdi
  | reti => rfl
  | _ => exact hime

/-- No instruction touches the latch of requests. -/
theorem Instruction.pending_controlAfter (i : Instruction) (c : Control) :
    (i.controlAfter c).pending = c.pending := by
  cases i <;> rfl

namespace Machine

variable {μ : Type} (m : Machine μ)

def control : Control := ⟨m.ime, m.imeScheduled, m.halted, m.stopped, m.pending⟩

/-- A request is serviced exactly if there is one and interrupts are let
through. -/
theorem action_eq_service_iff (vector : Byte) :
    m.action = .service vector ↔ m.pending = some vector ∧ m.ime = true := by
  unfold action
  cases m.pending with
  | none => cases m.halted <;> simp
  | some requested => cases m.ime <;> simp

/-! ## Moves -/

@[simp] theorem pc_setReg (r : Reg) (v : Byte) :
    (m.setReg r v).regs.pc = m.regs.pc := by
  cases r <;> rfl

@[simp] theorem control_setReg (r : Reg) (v : Byte) :
    (m.setReg r v).control = m.control := by
  cases r <;> rfl

@[simp] theorem pc_setPair (p : Pair) (v : Word) :
    (m.setPair p v).regs.pc = m.regs.pc := by
  cases p <;> rfl

@[simp] theorem control_setPair (p : Pair) (v : Word) :
    (m.setPair p v).control = m.control := by
  cases p <;> rfl

/-- HL goes up or down behind a place that says so; the program counter does not. -/
@[simp] theorem pc_touch (p : Place) : (m.touch p).regs.pc = m.regs.pc := by
  cases p <;> rfl

@[simp] theorem control_touch (p : Place) : (m.touch p).control = m.control := by
  cases p <;> rfl

variable [Mapper μ Byte]

@[simp] theorem pc_load (p : Place) : (m.load p).2.regs.pc = m.regs.pc :=
  pc_touch _ p

/-- Loading does not touch the latches, whatever a read does to the memory. -/
@[simp] theorem control_load (p : Place) : (m.load p).2.control = m.control :=
  control_touch _ p

@[simp] theorem pc_operand (o : Operand) : (m.operand o).2.regs.pc = m.regs.pc := by
  cases o with
  | place p => exact m.pc_load p
  | imm v => rfl

@[simp] theorem control_operand (o : Operand) :
    (m.operand o).2.control = m.control := by
  cases o with
  | place p => exact m.control_load p
  | imm v => rfl

@[simp] theorem pc_assign (p : Place) (v : Byte) :
    (m.assign p v).regs.pc = m.regs.pc := by
  cases p with
  | reg r => exact m.pc_setReg r v
  | _ => rfl

@[simp] theorem control_assign (p : Place) (v : Byte) :
    (m.assign p v).control = m.control := by
  cases p with
  | reg r => exact m.control_setReg r v
  | _ => rfl

/-! ## Instructions -/

/-- Only branches move the program counter. -/
theorem pc_execute {i : Instruction} (h : i.isBranch = false) :
    (m.execute i).1.regs.pc = m.regs.pc := by
  cases i with
  | ld dst src => exact (pc_assign _ dst _).trans (m.pc_operand src)
  | ldPair p v => exact m.pc_setPair p v
  | ldHlSp e => exact pc_setPair _ .hl _
  | addHl p => exact pc_setPair _ .hl _
  | addSp e => exact pc_setPair _ .sp _
  | incPair p => exact m.pc_setPair p _
  | decPair p => exact m.pc_setPair p _
  | inc target => exact (pc_assign _ target _).trans (m.pc_load target)
  | dec target => exact (pc_assign _ target _).trans (m.pc_load target)
  | alu op src => exact m.pc_operand src
  | rot op target => exact (pc_assign _ target _).trans (m.pc_load target)
  | swap target => exact (pc_assign _ target _).trans (m.pc_load target)
  | bit n target => exact m.pc_load target
  | res n target => exact (pc_assign _ target _).trans (m.pc_load target)
  | set n target => exact (pc_assign _ target _).trans (m.pc_load target)
  | pop p => exact pc_setPair _ p _
  | jp when? address => cases h
  | jpHl => cases h
  | jr when? d => cases h
  | call when? address => cases h
  | ret when? => cases h
  | reti => cases h
  | rst address => cases h
  | _ => rfl

/-- STOP, HALT, RETI, DI and EI are the instructions that touch the latches. -/
theorem control_execute (i : Instruction) :
    (m.execute i).1.control = i.controlAfter m.control := by
  cases i with
  | ld dst src => exact (control_assign _ dst _).trans (m.control_operand src)
  | ldPair p v => exact m.control_setPair p v
  | ldHlSp e => exact control_setPair _ .hl _
  | addHl p => exact control_setPair _ .hl _
  | addSp e => exact control_setPair _ .sp _
  | incPair p => exact m.control_setPair p _
  | decPair p => exact m.control_setPair p _
  | inc target => exact (control_assign _ target _).trans (m.control_load target)
  | dec target => exact (control_assign _ target _).trans (m.control_load target)
  | alu op src => exact m.control_operand src
  | rot op target => exact (control_assign _ target _).trans (m.control_load target)
  | swap target => exact (control_assign _ target _).trans (m.control_load target)
  | bit n target => exact m.control_load target
  | res n target => exact (control_assign _ target _).trans (m.control_load target)
  | set n target => exact (control_assign _ target _).trans (m.control_load target)
  | jp when? address =>
    simp only [execute]
    split <;> rfl
  | jr when? d =>
    simp only [execute]
    split <;> rfl
  | call when? address =>
    simp only [execute]
    split <;> rfl
  | ret when? =>
    simp only [execute]
    split <;> rfl
  | pop p => exact control_setPair _ p _
  | _ => rfl

/-! ## Steps -/

variable {m}

/-- A request that is let through is serviced at its vector. -/
theorem step_of_service {vector : Byte} (hservice : m.action = .service vector) :
    m.step = ⟨m.service vector, .ok Cycles.interrupt⟩ := by
  unfold step
  simp only [hservice]

theorem step_of_idle (hidle : m.action = .idle) :
    m.step = ⟨m, .ok Cycles.halted⟩ := by
  unfold step
  simp only [hidle]

/-- What is decoded is run, and the processor is awake from then on. -/
theorem step_of_fetched (hrun : m.action = .run) {d : Decoded Instruction}
    (hd : m.fetched = .ok d) : m.step = { m with halted := false }.run d := by
  unfold step
  simp only [hrun, hd]

/-- A failed decode wakes the processor and reads its cells, and that is all. -/
theorem step_of_undecodable (hrun : m.action = .run) {u : Undecodable}
    (hu : m.fetched = .error u) :
    m.step = ⟨{ m with halted := false }.readAhead u.length, .error u.fault⟩ := by
  unfold step
  simp only [hrun, hu]

end Machine

end Retrocore.Lr35902
