import Retrocore.Proofs.Faults.BreakingOff
import Retrocore.Proofs.Faults.Undecodable

/-!
# Steps of the Z80 that break off

An input or an output can be refused by an observer, also in the middle of a
block instruction; and in interrupt mode zero the byte that a device supplies may
mean nothing together with the cells behind it. Either way the cells have been
passed over and counted in the refresh register, and a request that was serviced
is gone (`begun`). A block output has already counted B down, while a block input
has not (`Breaks`).
-/

namespace Retrocore.Z80

/-- Inputs and outputs, also those of blocks. -/
def Instruction.isIo : Instruction → Bool
  | .inImm _ | .inC _ | .outImm _ | .outC _ => true
  | .block b => b.kind == .inp || b.kind == .out
  | _ => false

/-! ## Lengths -/

/-- IN and OUT of the root table name their port in one byte. -/
theorem decodeRoot_of_isIo {index : Option Index} {opcode : Byte} {s : Stream Byte}
    (hio : (decodeRoot index opcode s).1.isIo = true) : (decodeRoot index opcode s).2 = 1 := by
  generalize h : decodeRoot index opcode s = decoded at hio ⊢
  unfold decodeRoot at h
  dsimp only at h
  -- two opcodes are inputs or outputs, and all others contradict `hio`
  repeat' split at h
  all_goals
    subst h
    first
    | rfl
    | cases hio

theorem decodeBits_isIo (opcode : Byte) (target : Place) (copy : Option Reg) :
    (decodeBits opcode target copy).isIo = false := by
  unfold decodeBits
  dsimp only
  split <;> rfl

/-- Behind the prefix 0xed the port is in C. -/
theorem decodeExtended_of_isIo {opcode : Byte} {s : Stream Byte} {i : Instruction}
    {operands : Nat} (h : decodeExtended opcode s = some (i, operands)) (hio : i.isIo = true) :
    operands = 0 := by
  unfold decodeExtended at h
  dsimp only at h
  repeat' split at h
  -- opcodes that mean nothing go first
  all_goals
    cases h
  all_goals
    first
    | rfl
    | cases hio

/-- Behind an index prefix they are one byte longer. -/
theorem decodeIndexed_of_isIo {index : Index} {s : Stream Byte} {d : Decoded Instruction}
    (h : decodeIndexed index s = .ok d) (hio : d.instruction.isIo = true) : d.length = 3 := by
  unfold decodeIndexed at h
  split at h
  next =>
    cases h
    rw [decodeBits_isIo] at hio
    cases hio
  next => cases h
  next => cases h
  next => cases h
  next =>
    cases h
    exact congrArg (2 + ·) (decodeRoot_of_isIo hio)

/-- An input or an output takes two cells, or three with a prefix that makes no
difference to it. -/
theorem length_of_isIo {s : Stream Byte} {d : Decoded Instruction} (h : decode s = .ok d)
    (hio : d.instruction.isIo = true) : d.length = 2 ∨ d.length = 3 := by
  unfold decode at h
  split at h
  next =>
    cases h
    rw [decodeBits_isIo] at hio
    cases hio
  next =>
    split at h
    next heq =>
      cases h
      exact .inl (congrArg (2 + ·) (decodeExtended_of_isIo heq hio))
    next => cases h
  next => exact .inr (decodeIndexed_of_isIo h hio)
  next => exact .inr (decodeIndexed_of_isIo h hio)
  next =>
    cases h
    exact .inl (congrArg (1 + ·) (decodeRoot_of_isIo hio))

namespace Machine

variable {μ δ : Type} [Mapper μ Byte] [Observer δ Byte Byte] {m m' : Machine μ δ} {fault : Fault}

/-! ## Instructions -/

/-- What an instruction leaves that is refused. -/
inductive Breaks (m : Machine μ δ) : Instruction → Fault → Machine μ δ → Prop
  | inImm {port : Byte} {fault : Fault} (hrefused : m.ports.RefusesIn port fault) :
    Breaks m (.inImm port) fault { m with ports := m.ports.asked port }
  | inC {dst : Option Reg} {fault : Fault} (hrefused : m.ports.RefusesIn m.regs.c fault) :
    Breaks m (.inC dst) fault { m with ports := m.ports.asked m.regs.c }
  | outImm {port : Byte} {fault : Fault} (hrefused : m.ports.RefusesOut port m.regs.a fault) :
    Breaks m (.outImm port) fault { m with ports := m.ports.told port m.regs.a }
  | outC {src : Option Reg} {fault : Fault}
    (hrefused : m.ports.RefusesOut m.regs.c (src.elim 0 m.reg) fault) :
    Breaks m (.outC src) fault { m with ports := m.ports.told m.regs.c (src.elim 0 m.reg) }
  | blockIn {b : Block} {fault : Fault} (hkind : b.kind = .inp)
    (hrefused : m.ports.RefusesIn m.regs.c fault) :
    Breaks m (.block b) fault { m with ports := m.ports.asked m.regs.c }
  /-- The cell at HL has been read and B counted down. -/
  | blockOut {b : Block} {fault : Fault} (hkind : b.kind = .out)
    (hrefused : m.ports.RefusesOut m.regs.c (m.memory.value m.regs.hl) fault) :
    Breaks m (.block b) fault
      { m with
        regs.b := m.regs.b - 1
        ports := m.ports.told m.regs.c (m.memory.value m.regs.hl)
        memory := m.memory.afterRead m.regs.hl }

omit [Mapper μ Byte] [Observer δ Byte Byte] in
/-- Whether it repeats or not, what has been done is done. -/
theorem again_ne_error {b : Block} {more : Bool} : m.again b more ≠ ⟨m', .error fault⟩ := by
  unfold again
  split <;> exact fun h => nomatch h

/-- A block output does nothing between its read and the request that can
fail. -/
theorem blockOut_of_refused {b : Block}
    (h : m.ports.RefusesOut m.regs.c (m.memory.value m.regs.hl) fault) :
    m.blockOut b =
      ⟨{ m with
          regs.b := m.regs.b - 1
          ports := m.ports.told m.regs.c (m.memory.value m.regs.hl)
          memory := m.memory.afterRead m.regs.hl }, .error fault⟩ := by
  have hwrite : m.ports.write m.regs.c (m.memory.value m.regs.hl) = _ :=
    Ports.write_eq_error_iff.mpr ⟨h, rfl⟩
  have hread : m.read m.regs.hl =
      (m.memory.value m.regs.hl, { m with memory := m.memory.afterRead m.regs.hl }) := rfl
  simp only [blockOut, hread, hwrite]

/-- A round breaks off where the ports refuse it. -/
theorem blockRound_eq_error_iff {b : Block} :
    m.blockRound b = ⟨m', .error fault⟩ ↔ m.Breaks (.block b) fault m' := by
  constructor
  · intro h
    unfold blockRound at h
    cases hkind : b.kind with
    | ld =>
      rw [hkind] at h
      exact absurd h again_ne_error
    | cp =>
      rw [hkind] at h
      exact absurd h again_ne_error
    | inp =>
      rw [hkind] at h
      simp only [blockIn] at h
      split at h
      next heq =>
        cases h
        obtain ⟨hrefused, rfl⟩ := Ports.read_eq_error_iff.mp heq
        exact .blockIn hkind hrefused
      next => exact absurd h again_ne_error
    | out =>
      rw [hkind] at h
      simp only [blockOut] at h
      split at h
      next heq =>
        cases h
        obtain ⟨hrefused, rfl⟩ := Ports.write_eq_error_iff.mp heq
        exact .blockOut hkind hrefused
      next => exact absurd h again_ne_error
  · intro h
    unfold blockRound
    cases h with
    | blockIn hkind hrefused =>
      rw [hkind]
      simp only [blockIn, Ports.read_eq_error_iff.mpr ⟨hrefused, rfl⟩]
    | blockOut hkind hrefused =>
      rw [hkind]
      exact blockOut_of_refused hrefused

/-- An instruction fails where it is refused, and nowhere else. -/
theorem execute_eq_error_iff {i : Instruction} :
    m.execute i = ⟨m', .error fault⟩ ↔ m.Breaks i fault m' := by
  constructor
  · intro h
    cases i with
    | block b => exact blockRound_eq_error_iff.mp h
    | inImm port =>
      simp only [execute] at h
      split at h
      next => cases h
      next heq =>
        cases h
        obtain ⟨hrefused, rfl⟩ := Ports.read_eq_error_iff.mp heq
        exact .inImm hrefused
    | inC dst =>
      simp only [execute] at h
      split at h
      next => cases h
      next heq =>
        cases h
        obtain ⟨hrefused, rfl⟩ := Ports.read_eq_error_iff.mp heq
        exact .inC hrefused
    | outImm port =>
      cases hwrite : m.ports.write port m.regs.a with
      | mk ports result =>
        simp only [execute, hwrite] at h
        cases result with
        | ok => cases h
        | error refusal =>
          cases h
          obtain ⟨hrefused, rfl⟩ := Ports.write_eq_error_iff.mp hwrite
          exact .outImm hrefused
    | outC src =>
      cases hwrite : m.ports.write m.regs.c (src.elim 0 m.reg) with
      | mk ports result =>
        simp only [execute, hwrite] at h
        cases result with
        | ok => cases h
        | error refusal =>
          cases h
          obtain ⟨hrefused, rfl⟩ := Ports.write_eq_error_iff.mp hwrite
          exact .outC hrefused
    | jr when? d =>
      simp only [execute] at h
      split at h <;> cases h
    | djnz d =>
      simp only [execute] at h
      split at h <;> cases h
    | call when? address =>
      simp only [execute] at h
      split at h <;> cases h
    | ret when? =>
      simp only [execute] at h
      split at h <;> cases h
    | _ => cases h
  · intro h
    cases h with
    | inImm hrefused => simp only [execute, Ports.read_eq_error_iff.mpr ⟨hrefused, rfl⟩]
    | inC hrefused => simp only [execute, Ports.read_eq_error_iff.mpr ⟨hrefused, rfl⟩]
    | outImm hrefused =>
      simp only [execute, Ports.write_eq_error_iff.mpr ⟨hrefused, rfl⟩]
      rfl
    | outC hrefused =>
      simp only [execute, Ports.write_eq_error_iff.mpr ⟨hrefused, rfl⟩]
      rfl
    | blockIn hkind hrefused => exact blockRound_eq_error_iff.mpr (.blockIn hkind hrefused)
    | blockOut hkind hrefused => exact blockRound_eq_error_iff.mpr (.blockOut hkind hrefused)

/-- Only instructions on ports break off. -/
theorem Breaks.isIo {i : Instruction} (h : m.Breaks i fault m') : i.isIo = true := by
  cases h with
  | @blockIn b _ hkind =>
    show (b.kind == .inp || b.kind == .out) = true
    rw [hkind]
    rfl
  | @blockOut b _ hkind =>
    show (b.kind == .inp || b.kind == .out) = true
    rw [hkind]
    rfl
  | _ => rfl

/-- The program counter stays behind them. -/
theorem Breaks.pc {i : Instruction} (h : m.Breaks i fault m') : m'.regs.pc = m.regs.pc := by
  cases h <;> rfl

/-- Nothing has been stored by then; only a block output has read a cell. -/
theorem Breaks.looked {i : Instruction} (h : m.Breaks i fault m') :
    m.memory.Looked m'.memory := by
  cases h with
  | blockOut => exact .read .refl _
  | _ => exact .refl

/-! ## Steps -/

/-- What a decoder has read: how many cells, and how many of these as opcodes. -/
def cellsRead : Except Undecodable (Decoded Instruction) → Nat × Nat
  | .ok d => (d.length, d.fetches)
  | .error u => (u.length, u.fetches)

/-- The machine once the next step has read what it reads. A request that is
serviced is no longer there, and its byte does not stand in a cell. -/
def begun (m : Machine μ δ) : Machine μ δ :=
  match m.action with
  | .nmi | .idle => m
  | .service byte =>
    let (length, fetches) := cellsRead (m.supplied byte)
    ({ m with iff1 := false, iff2 := false, halted := false, pending := none }.advance
      (length - 1)).refresh fetches
  | .run =>
    let (length, fetches) := cellsRead m.fetched
    (m.advance length).refresh fetches

omit [Observer δ Byte Byte] in
theorem looked_begun (m : Machine μ δ) : m.memory.Looked m.begun.memory := by
  unfold begun
  cases m.action with
  | nmi => exact .refl
  | idle => exact .refl
  | service byte => exact .reads .refl _ _
  | run => exact .reads .refl _ _

/-- The step is to run an instruction, and the cells stand for none. -/
def Unread (m : Machine μ δ) : Prop := m.action = .run ∧ ∃ u, m.fetched = .error u

/-- What a step leaves that breaks off. -/
inductive Leaves (m : Machine μ δ) : Fault → Machine μ δ → Prop
  /-- A device has supplied a byte that means nothing. -/
  | undecodable {byte : Byte} {u : Undecodable} (haction : m.action = .service byte)
    (hmode : m.mode = .zero) (hsupplied : m.supplied byte = .error u) : Leaves m u.fault m.begun
  /-- The instruction that was read is refused. -/
  | refused {i : Instruction} {fault : Fault} {m' : Machine μ δ}
    (hexecuted : m.executed? = some i) (hbreaks : m.begun.Breaks i fault m') : Leaves m fault m'

omit [Observer δ Byte Byte] in
/-- The two places from where instructions are read. -/
theorem read_of_executed {i : Instruction} (h : m.executed? = some i) :
    (∃ byte d, m.action = .service byte ∧ m.mode = .zero ∧ m.supplied byte = .ok d ∧
        d.instruction = i) ∨
      ∃ d, m.action = .run ∧ m.fetched = .ok d ∧ d.instruction = i := by
  unfold executed? at h
  cases haction : m.action with
  | nmi =>
    rw [haction] at h
    cases h
  | idle =>
    rw [haction] at h
    cases h
  | service byte =>
    simp only [haction, suppliedInstruction?] at h
    split at h
    next hmode =>
      cases hsupplied : m.supplied byte with
      | ok d =>
        rw [hsupplied] at h
        exact .inl ⟨byte, d, rfl, hmode, hsupplied, Option.some.inj h⟩
      | error u =>
        rw [hsupplied] at h
        cases h
    all_goals cases h
  | run =>
    rw [haction] at h
    cases hfetched : m.fetched with
    | ok d =>
      simp only [hfetched] at h
      exact .inr ⟨d, rfl, rfl, Option.some.inj h⟩
    | error u =>
      simp only [hfetched] at h
      cases h

/-- What a device supplies is run once its request has been accepted. -/
theorem step_of_supplied {byte : Byte} {d : Decoded Instruction}
    (haction : m.action = .service byte) (hmode : m.mode = .zero)
    (hsupplied : m.supplied byte = .ok d) :
    m.step = (m.begun.execute d.instruction).costing Cycles.interruptMode0 := by
  rw [step_of_service haction]
  unfold service begun
  simp only [haction, hmode, hsupplied, cellsRead]

/-- What stands at the program counter is run once it has been passed over. -/
theorem step_of_read {d : Decoded Instruction} (haction : m.action = .run)
    (hfetched : m.fetched = .ok d) :
    m.step = (m.begun.execute d.instruction).plus (Cycles.of d) := by
  rw [step_of_fetched haction hfetched]
  unfold begun
  simp only [haction, hfetched, cellsRead]

/-- A step does what the instruction does that it runs, at a cost of its own. -/
theorem step_eq_of_executed {i : Instruction} (h : m.executed? = some i) :
    ∃ cost : Nat → Nat,
      m.step = ⟨(m.begun.execute i).state, (m.begun.execute i).result.map cost⟩ := by
  obtain ⟨byte, d, haction, hmode, hsupplied, rfl⟩ | ⟨d, haction, hfetched, rfl⟩ :=
    read_of_executed h
  · exact ⟨fun _ => Cycles.interruptMode0, step_of_supplied haction hmode hsupplied⟩
  · exact ⟨(· + Cycles.of d), step_of_read haction hfetched⟩

/-- A step fails as the instruction does that it runs. -/
theorem step_of_executed {i : Instruction} (h : m.executed? = some i) :
    m.step = ⟨m', .error fault⟩ ↔ m.begun.execute i = ⟨m', .error fault⟩ := by
  obtain ⟨cost, hstep⟩ := step_eq_of_executed h
  rw [hstep]
  exact Ran.map_result_eq_error_iff cost

/-- A byte that means nothing is passed over with the cells behind it. -/
theorem step_of_supplied_error {byte : Byte} {u : Undecodable} (haction : m.action = .service byte)
    (hmode : m.mode = .zero) (hsupplied : m.supplied byte = .error u) :
    m.step = ⟨m.begun, .error u.fault⟩ := by
  rw [step_of_service haction]
  unfold service begun
  simp only [haction, hmode, hsupplied, cellsRead]

/-- In mode one the handler stands at a fixed address. -/
theorem step_of_modeOne {byte : Byte} (haction : m.action = .service byte)
    (hmode : m.mode = .one) :
    m.step =
      ⟨({ m with iff1 := false, iff2 := false, halted := false, pending := none }.refresh 1).callTo
        modeOneVector, .ok Cycles.interruptMode1⟩ := by
  rw [step_of_service haction]
  simp only [service, hmode]

/-- In mode two the address of the handler stands in a table. -/
theorem step_of_modeTwo {byte : Byte} (haction : m.action = .service byte)
    (hmode : m.mode = .two) :
    m.step =
      let (target, memory) := m.memory.readWord (wordOf m.regs.i byte)
      ⟨({ m with iff1 := false, iff2 := false, halted := false, pending := none, memory }.refresh
        1).callTo target, .ok Cycles.interruptMode2⟩ := by
  rw [step_of_service haction]
  simp only [service, hmode]
  rfl

/-- The ways in which a step can come to run no instruction. -/
inductive Unexecuted (m : Machine μ δ) : Prop
  | nmi (haction : m.action = .nmi)
  | idle (haction : m.action = .idle)
  | unread {u : Undecodable} (haction : m.action = .run) (hfetched : m.fetched = .error u)
  | unsupplied {byte : Byte} {u : Undecodable} (haction : m.action = .service byte)
    (hmode : m.mode = .zero) (hsupplied : m.supplied byte = .error u)
  | modeOne {byte : Byte} (haction : m.action = .service byte) (hmode : m.mode = .one)
  | modeTwo {byte : Byte} (haction : m.action = .service byte) (hmode : m.mode = .two)

omit [Observer δ Byte Byte] in
/-- A step that runs no instruction services, idles, or fails to decode. -/
theorem unexecuted_of_eq_none (h : m.executed? = none) : m.Unexecuted := by
  cases haction : m.action with
  | nmi => exact .nmi haction
  | idle => exact .idle haction
  | run =>
    cases hfetched : m.fetched with
    | ok d =>
      simp only [executed?, haction, hfetched] at h
      cases h
    | error u => exact .unread haction hfetched
  | service byte =>
    cases hmode : m.mode with
    | zero =>
      cases hsupplied : m.supplied byte with
      | ok d =>
        simp only [executed?, haction, suppliedInstruction?, hmode, hsupplied] at h
        cases h
      | error u => exact .unsupplied haction hmode hsupplied
    | one => exact .modeOne haction hmode
    | two => exact .modeTwo haction hmode

/-- A step that can be read fails at the byte supplied or where it is refused,
and nowhere else. -/
theorem step_eq_error_iff (hread : ¬ m.Unread) :
    m.step = ⟨m', .error fault⟩ ↔ m.Leaves fault m' := by
  constructor
  · intro h
    cases hexecuted : m.executed? with
    | some i =>
      exact .refused hexecuted (execute_eq_error_iff.mp ((step_of_executed hexecuted).mp h))
    | none =>
      -- only a byte supplied can have failed
      cases unexecuted_of_eq_none hexecuted with
      | nmi haction =>
        rw [step_of_nmi haction] at h
        cases h
      | idle haction =>
        rw [step_of_idle haction] at h
        cases h
      | unread haction hfetched => exact absurd ⟨haction, _, hfetched⟩ hread
      | unsupplied haction hmode hsupplied =>
        rw [step_of_supplied_error haction hmode hsupplied] at h
        cases h
        exact .undecodable haction hmode hsupplied
      | modeOne haction hmode =>
        rw [step_of_modeOne haction hmode] at h
        cases h
      | modeTwo haction hmode =>
        rw [step_of_modeTwo haction hmode] at h
        cases h
  · intro h
    cases h with
    | undecodable haction hmode hsupplied => exact step_of_supplied_error haction hmode hsupplied
    | refused hexecuted hbreaks =>
      exact (step_of_executed hexecuted).mpr (execute_eq_error_iff.mpr hbreaks)

/-- The program counter is never left where it was. -/
theorem pc_of_leaves (h : m.Leaves fault m') : m'.regs.pc ≠ m.regs.pc := by
  cases h with
  | undecodable haction _ hsupplied =>
    have hlength := (decode_error hsupplied).1
    have hpc : m.begun.regs.pc = m.regs.pc + UInt16.ofNat 1 := by
      unfold begun
      simp only [haction, hsupplied, cellsRead, hlength]
      rfl
    rw [hpc]
    exact add_ofNat_ne _ Nat.one_pos (by omega)
  | refused hexecuted hbreaks =>
    rw [hbreaks.pc]
    obtain ⟨byte, d, haction, _, hsupplied, rfl⟩ | ⟨d, haction, hfetched, rfl⟩ :=
      read_of_executed hexecuted
    · have hpc : m.begun.regs.pc = m.regs.pc + UInt16.ofNat (d.length - 1) := by
        unfold begun
        simp only [haction, hsupplied, cellsRead]
        rfl
      have hlength := length_of_isIo hsupplied hbreaks.isIo
      rw [hpc]
      exact add_ofNat_ne _ (by omega) (by omega)
    · have hpc : m.begun.regs.pc = m.regs.pc + UInt16.ofNat d.length := by
        unfold begun
        simp only [haction, hfetched, cellsRead]
        rfl
      have hlength := length_of_isIo hfetched hbreaks.isIo
      rw [hpc]
      exact add_ofNat_ne _ (by omega) (by omega)

/-- The memory has only been looked at. -/
theorem looked_of_leaves (h : m.Leaves fault m') : m.memory.Looked m'.memory := by
  cases h with
  | undecodable => exact m.looked_begun
  | refused _ hbreaks => exact m.looked_begun.trans hbreaks.looked

/-- What a step that breaks off may change is taken from another machine: the
program counter, the refresh register, B, the latches that a serviced request
changes, the memory where its mapper makes something of a read, the latches of the
outputs and the observers. -/
def restore (m' m : Machine μ δ) : Machine μ δ :=
  { m' with
    regs.pc := m.regs.pc
    regs.r := m.regs.r
    regs.b := m.regs.b
    iff1 := m.iff1
    iff2 := m.iff2
    halted := m.halted
    pending := m.pending
    memory := m.memory
    ports.outputs := m.ports.outputs
    ports.observers := m.ports.observers }

/-- Everything else is put back by the fields that are listed. -/
theorem restore_of_leaves (h : m.Leaves fault m') : m'.restore m = m := by
  have hbegun : m.begun.restore m = m := by
    unfold begun
    cases m.action <;> rfl
  cases h with
  | undecodable => exact hbegun
  | refused _ hbreaks =>
    rw [← hbegun]
    cases hbreaks <;> rfl

/-- The steps of the Z80 that break off. -/
theorem breaksOff : BreaksOff (σ := Machine μ δ) (·.memory) Unread Leaves restore where
  iff_leaves _ _ _ hread := step_eq_error_iff hread
  moved _ _ _ hread h := pc_of_leaves ((step_eq_error_iff hread).mp h)
  looked _ _ _ hread h := looked_of_leaves ((step_eq_error_iff hread).mp h)
  restored _ _ _ hread h := restore_of_leaves ((step_eq_error_iff hread).mp h)

end Machine

end Retrocore.Z80
