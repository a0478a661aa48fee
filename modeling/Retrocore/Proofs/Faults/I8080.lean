import Retrocore.Proofs.Faults.BreakingOff
import Retrocore.Proofs.Frames.I8080

/-!
# Steps of the 8080 that fail

Only an input or an output can fail, where an observer refuses it. By then the
instruction has been read, the program counter is behind it, and a request that
supplied it has been serviced: `begun` is the machine at that point. `Breaks` says
what a refusal leaves of it, and `step_eq_error_iff` that a step fails in no other
way.
-/

namespace Retrocore.I8080

/-- Inputs and outputs. -/
def Instruction.isIo : Instruction → Bool
  | .inp _ | .out _ => true
  | _ => false

/-- Such an instruction has one operand, the port. -/
theorem operands_of_isIo {opcode : Byte} {s : Stream Byte}
    (hio : (decodeOpcode opcode s).1.isIo = true) : (decodeOpcode opcode s).2 = 1 := by
  generalize h : decodeOpcode opcode s = decoded at hio ⊢
  unfold decodeOpcode at h
  dsimp only at h
  -- two opcodes are inputs or outputs, and all others contradict `hio`
  repeat' split at h
  all_goals
    subst h
    first
    | rfl
    | cases hio

namespace Machine

variable {μ δ : Type} [Mapper μ Byte] [Observer δ Byte Byte] {m m' : Machine μ δ} {fault : Fault}

/-- What an instruction leaves that is refused. -/
inductive Breaks (m : Machine μ δ) : Instruction → Fault → Machine μ δ → Prop
  | inp {port : Byte} {fault : Fault} (hrefused : m.ports.RefusesIn port fault) :
    Breaks m (.inp port) fault { m with ports := m.ports.asked port }
  | out {port : Byte} {fault : Fault} (hrefused : m.ports.RefusesOut port m.regs.a fault) :
    Breaks m (.out port) fault { m with ports := m.ports.told port m.regs.a }

/-- An instruction fails where it is refused, and nowhere else. -/
theorem execute_eq_error_iff {i : Instruction} :
    m.execute i = ⟨m', .error fault⟩ ↔ m.Breaks i fault m' := by
  constructor
  · intro h
    cases i with
    | inp port =>
      simp only [execute] at h
      split at h
      next => cases h
      next heq =>
        cases h
        obtain ⟨hrefused, rfl⟩ := Ports.read_eq_error_iff.mp heq
        exact .inp hrefused
    | out port =>
      cases hwrite : m.ports.write port m.regs.a with
      | mk ports result =>
        simp only [execute, hwrite] at h
        cases result with
        | ok => cases h
        | error refusal =>
          cases h
          obtain ⟨hrefused, rfl⟩ := Ports.write_eq_error_iff.mp hwrite
          exact .out hrefused
    | jmp when? address => cases when? <;> cases h
    | ret when? =>
      cases when? with
      | none => cases h
      | some cc =>
        simp only [execute] at h
        split at h <;> cases h
    | call when? address =>
      cases when? with
      | none => cases h
      | some cc =>
        simp only [execute] at h
        split at h <;> cases h
    | _ => cases h
  · intro h
    cases h with
    | inp hrefused => simp only [execute, Ports.read_eq_error_iff.mpr ⟨hrefused, rfl⟩]
    | out hrefused =>
      simp only [execute, Ports.write_eq_error_iff.mpr ⟨hrefused, rfl⟩]
      rfl

omit [Mapper μ Byte] in
/-- Only IN and OUT break off. -/
theorem Breaks.isIo {i : Instruction} (h : m.Breaks i fault m') : i.isIo = true := by
  cases h with
  | inp => rfl
  | out => rfl

omit [Mapper μ Byte] in
/-- The program counter stays behind them. -/
theorem Breaks.pc {i : Instruction} (h : m.Breaks i fault m') : m'.regs.pc = m.regs.pc := by
  cases h with
  | inp => rfl
  | out => rfl

omit [Mapper μ Byte] in
/-- The port is all that an input or an output has to do with. -/
theorem Breaks.memory {i : Instruction} (h : m.Breaks i fault m') : m'.memory = m.memory := by
  cases h with
  | inp => rfl
  | out => rfl

/-! ## Steps -/

/-- The machine when the instruction begins that the next step runs: what the
step reads has been read, and a request that it services is no longer there. -/
def begun (m : Machine μ δ) : Machine μ δ :=
  match m.action with
  | .service opcode =>
    { m with inte := false, halted := false, pending := none }.advance
      (decodeOpcode opcode (m.memory.stream m.regs.pc)).2
  | .idle => m
  | .run => m.advance m.fetched.length

omit [Observer δ Byte Byte] in
/-- The memory has been read by then, and not written to. -/
theorem looked_begun (m : Machine μ δ) : m.memory.Looked m.begun.memory := by
  unfold begun
  cases m.action with
  | service opcode => exact .reads .refl _ _
  | idle => exact .refl
  | run => exact .reads .refl _ _

theorem step_of_executed {i : Instruction} (h : m.executed? = some i) :
    m.step = m.begun.execute i := by
  unfold executed? at h
  unfold begun
  cases haction : m.action with
  | service opcode =>
    rw [haction] at h
    cases h
    exact step_of_service haction
  | idle =>
    rw [haction] at h
    cases h
  | run =>
    rw [haction] at h
    cases h
    exact step_of_fetched haction rfl

/-- What a step leaves that fails. -/
def Leaves (m : Machine μ δ) (fault : Fault) (m' : Machine μ δ) : Prop :=
  ∃ i, m.executed? = some i ∧ m.begun.Breaks i fault m'

/-- A step fails where the instruction is refused that it runs. -/
theorem step_eq_error_iff : m.step = ⟨m', .error fault⟩ ↔ m.Leaves fault m' := by
  constructor
  · intro h
    cases hexecuted : m.executed? with
    | some i =>
      rw [step_of_executed hexecuted] at h
      exact ⟨i, hexecuted, execute_eq_error_iff.mp h⟩
    | none =>
      -- the halted processor idles
      unfold executed? at hexecuted
      cases haction : m.action with
      | service opcode =>
        rw [haction] at hexecuted
        cases hexecuted
      | idle =>
        rw [step_of_idle haction] at h
        cases h
      | run =>
        rw [haction] at hexecuted
        cases hexecuted
  · rintro ⟨i, hexecuted, hbreaks⟩
    rw [step_of_executed hexecuted]
    exact execute_eq_error_iff.mpr hbreaks

omit [Observer δ Byte Byte] in
/-- Its port has been read by then. -/
theorem pc_begun_ne {i : Instruction} (h : m.executed? = some i) (hio : i.isIo = true) :
    m.begun.regs.pc ≠ m.regs.pc := by
  unfold executed? at h
  unfold begun
  cases haction : m.action with
  | service opcode =>
    rw [haction] at h
    obtain rfl := Option.some.inj h
    dsimp only [advance]
    rw [operands_of_isIo hio]
    exact add_ofNat_ne _ Nat.one_pos (by omega)
  | idle =>
    rw [haction] at h
    cases h
  | run =>
    rw [haction] at h
    obtain rfl := Option.some.inj h
    have hlength : m.fetched.length = 1 + 1 := congrArg (1 + ·) (operands_of_isIo hio)
    dsimp only [advance]
    rw [hlength]
    exact add_ofNat_ne _ Nat.two_pos (by omega)

/-- The program counter is never left where it was. -/
theorem pc_of_step_eq_error (h : m.step = ⟨m', .error fault⟩) : m'.regs.pc ≠ m.regs.pc := by
  obtain ⟨i, hexecuted, hbreaks⟩ := step_eq_error_iff.mp h
  rw [hbreaks.pc]
  exact pc_begun_ne hexecuted hbreaks.isIo

/-- The memory has only been looked at. -/
theorem looked_of_step_eq_error (h : m.step = ⟨m', .error fault⟩) :
    m.memory.Looked m'.memory := by
  obtain ⟨i, _, hbreaks⟩ := step_eq_error_iff.mp h
  rw [hbreaks.memory]
  exact m.looked_begun

/-- What a failing step may change is taken from another machine: the program
counter, the latches that a serviced request changes, the memory where its mapper
makes something of a read, the latches of the outputs and the observers. -/
def restore (m' m : Machine μ δ) : Machine μ δ :=
  { m' with
    regs.pc := m.regs.pc
    inte := m.inte
    halted := m.halted
    pending := m.pending
    memory := m.memory
    ports.outputs := m.ports.outputs
    ports.observers := m.ports.observers }

/-- Everything else is put back by the fields that are listed. -/
theorem restore_of_step_eq_error (h : m.step = ⟨m', .error fault⟩) : m'.restore m = m := by
  obtain ⟨i, _, hbreaks⟩ := step_eq_error_iff.mp h
  have hbegun : m.begun.restore m = m := by
    unfold begun
    cases m.action <;> rfl
  rw [← hbegun]
  cases hbreaks with
  | inp => rfl
  | out => rfl

/-- The steps of the 8080 that fail. Its cells always stand for something. -/
theorem breaksOff :
    BreaksOff (σ := Machine μ δ) (·.memory) (fun _ => False) Leaves restore where
  iff_leaves _ _ _ _ := step_eq_error_iff
  moved _ _ _ _ := pc_of_step_eq_error
  looked _ _ _ _ := looked_of_step_eq_error
  restored _ _ _ _ := restore_of_step_eq_error

end Machine

end Retrocore.I8080
