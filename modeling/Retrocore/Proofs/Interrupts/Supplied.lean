import Retrocore.Proofs.Compatible.Translate
import Retrocore.Proofs.Faults.I8080
import Retrocore.Proofs.Faults.Z80
import Retrocore.Proofs.Memory.Propagation

/-!
# A supplied opcode runs as if it had been fetched

An interrupting device puts an opcode on the bus, and the operands are the cells
at the program counter. It is as if the opcode stood in the cell before them and
were fetched from there: `rewound` is the machine that is about to do so, with
interrupts shut off and the request gone, and `supplied_as_fetched` says that
the two steps come to the same. This is so whatever the opcode is, with
prefixes, with operands, with branches to where the program counter is seen to
be; all but the cost on the Z80 is that of the ordinary step.

The reason is that the two streams of cells are the same
(`Memory.Quiet.stream_pred`), so that one decoder reads the same instruction from
both, and that the program counter is behind its last cell either way
(`begun_rewound`). The memory is one that reads do not change, since the supplied
opcode takes the place of a read. Only where the cells
mean nothing do the steps part: the fetch is undone, and the supplied opcode with
the cells behind it is passed over (`step_of_meaningless`).
-/

namespace Retrocore

/-- The stream that starts one cell earlier has that cell in front. -/
theorem Memory.Quiet.stream_pred {μ κ : Type} [Inhabited κ] [Mapper μ κ] {memory : Memory μ κ}
    (hquiet : memory.Quiet) (a : Word) :
    memory.stream (a - 1) = Stream.cons (memory.value (a - 1)) (memory.stream a) := by
  funext i
  rcases i with _ | i
  · exact memory.stream_zero (a - 1)
  · have hnext : a - 1 + UInt16.ofNat (i + 1) = a + UInt16.ofNat i := by
      rw [UInt16.ofNat_add]
      show a - 1 + (UInt16.ofNat i + 1) = a + UInt16.ofNat i
      grind
    show memory.stream (a - 1) (i + 1) = memory.stream a i
    rw [hquiet.stream, hquiet.stream, hnext]

/-- Of the cells that are passed over from one cell earlier on, one is in front
of the program counter. -/
theorem pred_add_ofNat (pc : Word) {cells : Nat} (hcells : 0 < cells) :
    pc - 1 + UInt16.ofNat cells = pc + UInt16.ofNat (cells - 1) := by
  obtain ⟨rest, rfl⟩ : ∃ rest, cells = rest + 1 := ⟨cells - 1, by omega⟩
  rw [UInt16.ofNat_add, Nat.add_sub_cancel]
  show pc - 1 + (UInt16.ofNat rest + 1) = pc + UInt16.ofNat rest
  grind

/-- A set cost takes the place of any other. -/
theorem Ran.costing_plus {σ : Type} (r : Ran σ) (some all : Nat) :
    (r.plus some).costing all = r.costing all := by
  obtain ⟨s, result⟩ := r
  cases result <;> rfl

variable {μ δ : Type} [Mapper μ Byte]

/-! ## The Z80 -/

namespace Z80.Machine

/-- The machine with interrupts shut off and nothing requested, about to fetch
from the cell before the program counter. -/
def rewound (m : Machine μ δ) : Machine μ δ :=
  { m with
    regs.pc := m.regs.pc - 1
    iff1 := false
    iff2 := false
    halted := false
    pending := none }

/-- The opcode itself is always read. -/
theorem cellsRead_pos (s : Stream Byte) : 0 < (cellsRead (decode s)).1 := by
  cases hdecode : decode s with
  | ok d => exact decode_length_pos hdecode
  | error u =>
    show 0 < u.length
    rw [(decode_error hdecode).1]
    exact Nat.two_pos

section

variable {m : Machine μ δ} {byte : Byte}

omit [Mapper μ Byte] in
/-- With nothing requested the processor runs the instruction. -/
theorem action_rewound (hservice : m.action = .service byte) : m.rewound.action = .run := by
  obtain ⟨-, -, hnmi⟩ := (m.action_eq_service_iff byte).mp hservice
  have hnmi : m.rewound.nmiPending = false := hnmi
  unfold action
  rw [hnmi]
  rfl

/-- In the cell before, it finds what the device has supplied. -/
theorem fetched_rewound (hquiet : m.memory.Quiet)
    (hbyte : m.memory.value (m.regs.pc - 1) = byte) :
    m.rewound.fetched = m.supplied byte := by
  show decode (m.memory.stream (m.regs.pc - 1)) = decode (.cons byte (m.memory.stream m.regs.pc))
  rw [hquiet.stream_pred, hbyte]

/-- Once the cells have been read, nothing tells where the first of them came
from. -/
theorem begun_rewound (hquiet : m.memory.Quiet) (hservice : m.action = .service byte)
    (hbyte : m.memory.value (m.regs.pc - 1) = byte) : m.rewound.begun = m.begun := by
  have hpc : m.rewound.regs.pc + UInt16.ofNat (cellsRead (m.supplied byte)).1 =
      m.regs.pc + UInt16.ofNat ((cellsRead (m.supplied byte)).1 - 1) :=
    pred_add_ofNat m.regs.pc (cellsRead_pos _)
  have hreads : ∀ a n, m.memory.afterReads a n = m.memory := hquiet.afterReads
  have hreads' : ∀ a n, m.rewound.memory.afterReads a n = m.memory := hquiet.afterReads
  unfold begun
  simp only [hservice, action_rewound hservice, fetched_rewound hquiet hbyte, advance, readAhead,
    hreads, hreads', hpc]
  rfl

variable [Observer δ Byte Byte]

/-- A supplied opcode that means something runs as if it had been fetched. -/
theorem step_of_meaningful (hquiet : m.memory.Quiet) (hservice : m.action = .service byte)
    (hmode : m.mode = .zero) (hbyte : m.memory.value (m.regs.pc - 1) = byte) {d : Decoded Instruction}
    (hsupplied : m.supplied byte = .ok d) :
    m.step = m.rewound.step.costing Cycles.interruptMode0 := by
  have hfetched : m.rewound.fetched = .ok d := (fetched_rewound hquiet hbyte).trans hsupplied
  rw [step_of_supplied hservice hmode hsupplied,
    step_of_read (action_rewound hservice) hfetched, begun_rewound hquiet hservice hbyte,
    Ran.costing_plus]

/-- A supplied opcode that means nothing fails as the fetch does, but its cells
have been passed over. -/
theorem step_of_meaningless (hquiet : m.memory.Quiet) (hservice : m.action = .service byte)
    (hmode : m.mode = .zero) (hbyte : m.memory.value (m.regs.pc - 1) = byte) {u : Undecodable}
    (hsupplied : m.supplied byte = .error u) :
    m.step = ⟨m.rewound.step.state.advance u.length, m.rewound.step.result⟩ := by
  have haction := action_rewound hservice
  have hfetched : m.rewound.fetched = .error u := (fetched_rewound hquiet hbyte).trans hsupplied
  have hbegun : m.rewound.begun = (m.rewound.refresh u.fetches).advance u.length := by
    unfold begun
    simp only [haction, hfetched, cellsRead]
    rfl
  have hunread : m.rewound.readAhead u.length = m.rewound :=
    readAhead_of_quiet (m := m.rewound) hquiet u.length
  rw [step_of_supplied_error hservice hmode hsupplied, step_of_undecodable haction hfetched,
    hunread, ← hbegun, begun_rewound hquiet hservice hbyte]

end

end Z80.Machine

/-! ## The 8080 -/

namespace I8080.Machine

/-- The machine with interrupts shut off and nothing requested, about to fetch
from the cell before the program counter. -/
def rewound (m : Machine μ δ) : Machine μ δ :=
  { m with
    regs.pc := m.regs.pc - 1
    inte := false
    halted := false
    pending := none }

variable {m : Machine μ δ} {opcode : Byte}

theorem fetched_rewound (hquiet : m.memory.Quiet)
    (hbyte : m.memory.value (m.regs.pc - 1) = opcode) :
    m.rewound.fetched =
      .root opcode (decodeOpcode opcode (m.memory.stream m.regs.pc)).1
        (decodeOpcode opcode (m.memory.stream m.regs.pc)).2 := by
  show decode (m.memory.stream (m.regs.pc - 1)) = _
  rw [hquiet.stream_pred, hbyte]
  show Decoded.root opcode
    (decodeOpcode opcode ((Stream.cons opcode (m.memory.stream m.regs.pc)).drop 1)).1
    (decodeOpcode opcode ((Stream.cons opcode (m.memory.stream m.regs.pc)).drop 1)).2 = _
  rw [Stream.drop_cons]

variable [Observer δ Byte Byte]

/-- Every opcode means something on the 8080, and runs as if it had been
fetched. -/
theorem step_of_service_eq (hquiet : m.memory.Quiet) (hservice : m.action = .service opcode)
    (hbyte : m.memory.value (m.regs.pc - 1) = opcode) : m.step = m.rewound.step := by
  have hpc : ∀ operands : Nat,
      m.rewound.regs.pc + UInt16.ofNat (1 + operands) = m.regs.pc + UInt16.ofNat operands := by
    intro operands
    have h := pred_add_ofNat m.regs.pc (Nat.add_pos_left Nat.one_pos operands)
    rwa [Nat.add_sub_cancel_left] at h
  let shut : Machine μ δ := { m with inte := false, halted := false, pending := none }
  have hleft : ∀ n, shut.advance n = shut.jump (m.regs.pc + UInt16.ofNat n) :=
    advance_of_quiet (m := shut) hquiet
  have hright : ∀ n, m.rewound.advance n = m.rewound.jump (m.rewound.regs.pc + UInt16.ofNat n) :=
    advance_of_quiet (m := m.rewound) hquiet
  rw [step_of_service hservice, step_of_fetched rfl (fetched_rewound hquiet hbyte), hright]
  show (shut.advance _).execute _ =
    (m.rewound.jump (m.rewound.regs.pc + UInt16.ofNat (1 + _))).execute _
  rw [hleft, hpc]
  rfl

end I8080.Machine

/-! ## Both -/

/-- **The step that services a supplied opcode is the step that fetches it from
the cell before the program counter**, with interrupts shut off; on the Z80, in
mode zero, a success has a cost of its own. -/
theorem supplied_as_fetched [Observer δ Byte Byte] :
    (∀ (m : Z80.Machine μ δ) (byte : Byte), m.memory.Quiet → m.mode = .zero → m.iff1 = true →
      m.pending = some byte → m.nmiPending = false → m.memory.value (m.regs.pc - 1) = byte →
      (∃ d, Z80.decode (.cons byte (m.memory.stream m.regs.pc)) = .ok d) →
      m.step = m.rewound.step.costing 13) ∧
    ∀ (m : I8080.Machine μ δ) (byte : Byte), m.memory.Quiet → m.inte = true → m.pending = some byte →
      m.memory.value (m.regs.pc - 1) = byte → m.step = m.rewound.step := by
  constructor
  · intro m byte hquiet hmode hiff1 hpending hnmi hbyte hdecodes
    obtain ⟨d, hd⟩ := hdecodes
    have hservice := (m.action_eq_service_iff byte).mpr ⟨hpending, hiff1, hnmi⟩
    exact Z80.Machine.step_of_meaningful hquiet hservice hmode hbyte hd
  · intro m byte hquiet hinte hpending hbyte
    have hservice := (m.action_eq_service_iff byte).mpr ⟨hpending, hinte⟩
    exact I8080.Machine.step_of_service_eq hquiet hservice hbyte

/-- A device supplies CALL to processors at address 0, whose cell before is the
last of the memory. The address that is pushed is that behind the operands. -/
theorem supplied_as_fetched_call :
    let memory : Memory Empty Byte := (Memory.zeros 65536).write 0xffff 0xcd
    let m : Z80.Machine Empty (Recorder Byte Byte) :=
      { Z80.Machine.new memory 0 with iff1 := true, pending := some 0xcd }
    let n : I8080.Machine Empty (Recorder Byte Byte) :=
      { I8080.Machine.new memory 0 with inte := true, pending := some 0xcd }
    (memory.Plain ∧ memory.value (0 - 1) = 0xcd ∧ m.mode = .zero ∧ m.nmiPending = false ∧
      Z80.decode (.cons 0xcd (memory.stream 0)) =
        .ok (.root 0xcd (.call none (Stream.word (memory.stream 0) 0)) 2)) ∧
    m.step = m.rewound.step.costing 13 ∧ n.step = n.rewound.step := by
  intro memory m n
  have hplain : memory.Plain := Memory.plain_zeros.write 0xffff 0xcd
  have hbyte : memory.value (0 - 1) = 0xcd :=
    (Memory.plain_zeros.value_write 0xffff (0 - 1) 0xcd).trans (if_pos (by decide))
  have hdecodes : Z80.decode (.cons 0xcd (memory.stream 0)) =
      .ok (.root 0xcd (.call none (Stream.word (memory.stream 0) 0)) 2) := by
    have hcommon : Compatible.Common 0xcd := by decide
    have hroot : Z80.decodeRoot none 0xcd (memory.stream 0) =
        (.call none (Stream.word (memory.stream 0) 0), 2) := rfl
    rw [Compatible.decode_of_common hcommon, Stream.drop_cons]
    show Except.ok (Decoded.root 0xcd (Z80.decodeRoot none 0xcd (memory.stream 0)).1
      (Z80.decodeRoot none 0xcd (memory.stream 0)).2) = _
    rw [hroot]
  exact ⟨⟨hplain, hbyte, rfl, rfl, hdecodes⟩,
    supplied_as_fetched.1 m 0xcd hplain.quiet rfl rfl rfl rfl hbyte ⟨_, hdecodes⟩,
    supplied_as_fetched.2 n 0xcd hplain.quiet rfl rfl hbyte⟩

end Retrocore
