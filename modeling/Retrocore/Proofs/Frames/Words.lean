import Retrocore.Lmc.Machine
import Retrocore.Proofs.Disassembly.Locality
import Retrocore.Proofs.Memory.Reads
import Retrocore.Synacor.Machine

/-!
# What instructions of the word machines leave alone

On the Little Man Computer and the Synacor machine the program counter moves
only on branches and, back to the instruction itself, while an input is waited
for. On the Synacor machine only `push`, `pop`, `call` and `ret` use the stack
(`stack_execute`), only `wmem` writes to the memory, and only `rmem` reads from it
once the instruction itself has been read (`memory_execute`).
-/

namespace Retrocore

namespace Lmc

def Instruction.isBranch : Instruction → Bool
  | .bra _ | .brz _ | .brp _ => true
  | _ => false

namespace Machine

variable {μ δ : Type} [Mapper μ Word] [Observer δ Port Word] (m : Machine μ δ)

/-- There is no number for an input, neither from an observer nor in the
in-basket. -/
def Starved : Prop :=
  (Observer.notifyIn m.observers Port.inp).2 = .ok none ∧ m.input = none

omit [Observer δ Port Word] in
/-- Where reads change nothing, reading the instruction only moves the program
counter. -/
theorem advance_of_quiet {m : Machine μ δ} (h : m.memory.Quiet) :
    m.advance = { m with pc := m.pc + 1 } :=
  congrArg (fun memory => { m with pc := m.pc + 1, memory }) (h m.pc.toUInt16)

/-- Only branches and starved inputs move the program counter. -/
theorem pc_execute {i : Instruction} (hbranch : i.isBranch = false)
    (hinput : i = .inp → ¬ m.Starved) : (m.execute i).state.pc = m.pc := by
  cases i with
  | inp =>
    -- an observer refuses, answers, or leaves it to the in-basket
    have hfed := hinput rfl
    simp only [execute]
    split
    next => rfl
    next => rfl
    next observers heq =>
      split
      next => rfl
      next hnone => exact absurd ⟨congrArg Prod.snd heq, hnone⟩ hfed
  | bra address => cases hbranch
  | brz address => cases hbranch
  | brp address => cases hbranch
  | sub address =>
    simp only [execute]
    rfl
  | _ => rfl

variable {m}

/-- A running LMC executes what it has fetched, with the counter behind it. -/
theorem step_of_fetched (hrunning : m.halted = false) {d : Decoded Instruction}
    (hd : m.fetched = .ok d) :
    m.step = m.advance.execute d.instruction := by
  unfold step
  simp only [hrunning, hd, Bool.false_eq_true, if_false]

/-- A failed decode reads the mailbox, and that is all. -/
theorem step_of_undecodable (hrunning : m.halted = false) {u : Undecodable}
    (hu : m.fetched = .error u) : m.step = ⟨m.readAhead, .error u.fault⟩ := by
  unfold step
  simp only [hrunning, hu, Bool.false_eq_true, if_false]

variable (m) in
/-- The instruction that the next step runs. -/
def executed? : Option Instruction :=
  if m.halted then none
  else
    match m.fetched with
    | .ok d => some d.instruction
    | .error _ => none

omit [Observer δ Port Word] in
/-- An instruction that is executed has been decoded by a running machine. -/
theorem fetched_of_executed? {i : Instruction} (h : m.executed? = some i) :
    m.halted = false ∧ ∃ d, m.fetched = .ok d ∧ d.instruction = i := by
  unfold executed? at h
  split at h
  next => cases h
  next hrunning =>
    split at h
    next d hd =>
      cases h
      exact ⟨eq_false_of_ne_true hrunning, d, hd, rfl⟩
    next => cases h

/-- It starts with the program counter behind it. -/
theorem step_of_executed? {i : Instruction} (h : m.executed? = some i) :
    m.step = m.advance.execute i := by
  obtain ⟨hrunning, d, hd, rfl⟩ := fetched_of_executed? h
  exact step_of_fetched hrunning hd

/-- Without an instruction to run, a step reads at most a mailbox. -/
theorem step_of_executed?_none (h : m.executed? = none) :
    ∃ memory, m.memory.Looked memory ∧ m.step.state = { m with memory } := by
  unfold executed? at h
  unfold step
  split
  next => exact ⟨m.memory, .refl, rfl⟩
  next hrunning =>
    rw [if_neg hrunning] at h
    cases hfetched : m.fetched with
    | ok d =>
      rw [hfetched] at h
      cases h
    | error u => exact ⟨_, Memory.Looked.refl.read _, rfl⟩

end Machine

end Lmc

namespace Synacor

def Instruction.isBranch : Instruction → Bool
  | .jmp _ | .jt .. | .jf .. | .call _ | .ret => true
  | _ => false

/-- Whether the instruction waits for a character. -/
def Instruction.isInput : Instruction → Bool
  | .inp _ => true
  | _ => false

namespace Machine

variable {μ δ : Type} (m : Machine μ δ)

@[simp] theorem pc_assign (op : Op) (dst : Arg) (v : Word) :
    (m.assign op dst v).state.pc = m.pc := by
  unfold assign
  split <;> rfl

@[simp] theorem stack_assign (op : Op) (dst : Arg) (v : Word) :
    (m.assign op dst v).state.stack = m.stack := by
  unfold assign
  split <;> rfl

/-- Results go to a register, so that the memory changes by `wmem` alone. -/
@[simp] theorem memory_assign (op : Op) (dst : Arg) (v : Word) :
    (m.assign op dst v).state.memory = m.memory := by
  unfold assign
  split <;> rfl

variable [Observer δ Byte Byte]

/-- There is no character for an input, neither from an observer nor queued. -/
def Starved : Prop :=
  (Observer.notifyIn m.observers consolePort).2 = .ok none ∧ m.input = []

/-- With something to read, the machine goes on. -/
theorem pc_readChar {i : Instruction} (dst : Arg) (hfed : ¬ m.Starved) :
    (m.readChar i dst).state.pc = m.pc := by
  unfold readChar
  split
  next => rfl
  next => exact pc_assign _ _ dst _
  next observers heq =>
    split
    next => exact pc_assign _ _ dst _
    next hnone => exact absurd ⟨congrArg Prod.snd heq, hnone⟩ hfed

/-- Input comes from the latch or the observers, not from the stack. -/
theorem stack_readChar (i : Instruction) (dst : Arg) :
    (m.readChar i dst).state.stack = m.stack := by
  unfold readChar
  split
  next => rfl
  next => exact stack_assign _ _ dst _
  next =>
    split
    next => exact stack_assign _ _ dst _
    next => rfl

theorem memory_readChar (i : Instruction) (dst : Arg) :
    (m.readChar i dst).state.memory = m.memory := by
  unfold readChar
  split
  next => rfl
  next => exact memory_assign _ _ dst _
  next =>
    split
    next => exact memory_assign _ _ dst _
    next => rfl

variable [Mapper μ Word]

omit [Observer δ Byte Byte] in
/-- Where reads change nothing, reading the instruction only moves the program
counter. -/
theorem advance_of_quiet {m : Machine μ δ} (h : m.memory.Quiet) (cells : Nat) :
    m.advance cells = m.jump (m.pc + UInt16.ofNat cells) := by
  unfold advance readAhead
  rw [h.afterReads]

/-- Only branches and starved inputs move the program counter. -/
theorem pc_execute {i : Instruction} (hbranch : i.isBranch = false)
    (hinput : i.isInput = true → ¬ m.Starved) : (m.execute i).state.pc = m.pc := by
  cases i with
  | set dst a => exact m.pc_assign _ dst _
  | pop dst =>
    simp only [execute]
    split
    next => exact pc_assign _ _ dst _
    next => rfl
  | eq dst a b => exact m.pc_assign _ dst _
  | gt dst a b => exact m.pc_assign _ dst _
  | add dst a b => exact m.pc_assign _ dst _
  | mult dst a b => exact m.pc_assign _ dst _
  | mod dst a b =>
    simp only [execute]
    split
    next => rfl
    next => exact m.pc_assign _ dst _
  | and dst a b => exact m.pc_assign _ dst _
  | or dst a b => exact m.pc_assign _ dst _
  | not dst a => exact m.pc_assign _ dst _
  | rmem dst address => exact pc_assign _ _ dst _
  | inp dst => exact m.pc_readChar dst (hinput rfl)
  | jmp target => cases hbranch
  | jt a target => cases hbranch
  | jf a target => cases hbranch
  | call target => cases hbranch
  | ret => cases hbranch
  | _ => rfl

variable {m}

/-- A running Synacor machine executes what it has fetched, with the counter behind
it. -/
theorem step_of_fetched (hrunning : m.halted = false) {d : Decoded Instruction}
    (hd : m.fetched = .ok d) :
    m.step = (m.advance d.length).execute d.instruction := by
  unfold step
  simp only [hrunning, hd, Bool.false_eq_true, if_false]

/-- A failed decode reads its cells, and that is all. -/
theorem step_of_undecodable (hrunning : m.halted = false) {u : Undecodable}
    (hu : m.fetched = .error u) : m.step = ⟨m.readAhead u.length, .error u.fault⟩ := by
  unfold step
  simp only [hrunning, hu, Bool.false_eq_true, if_false]

variable (m) in
/-- The instruction that the next step runs. -/
def executed? : Option Instruction :=
  if m.halted then none
  else
    match m.fetched with
    | .ok d => some d.instruction
    | .error _ => none

omit [Observer δ Byte Byte] in
/-- An instruction that is executed has been decoded by a running machine. -/
theorem fetched_of_executed? {i : Instruction} (h : m.executed? = some i) :
    m.halted = false ∧ ∃ d, m.fetched = .ok d ∧ d.instruction = i := by
  unfold executed? at h
  split at h
  next => cases h
  next hrunning =>
    split at h
    next d hd =>
      cases h
      exact ⟨eq_false_of_ne_true hrunning, d, hd, rfl⟩
    next => cases h

/-- It starts with the program counter behind it. -/
theorem step_of_executed? {i : Instruction} (h : m.executed? = some i) :
    m.step = (m.advance i.length).execute i := by
  obtain ⟨hrunning, d, hd, rfl⟩ := fetched_of_executed? h
  rw [step_of_fetched hrunning hd, decode_length hd]

/-- Without an instruction to run, a step does no more than read cells. -/
theorem step_of_executed?_none (h : m.executed? = none) :
    ∃ memory, m.memory.Looked memory ∧ m.step.state = { m with memory } := by
  unfold executed? at h
  unfold step
  split
  next => exact ⟨m.memory, .refl, rfl⟩
  next hrunning =>
    rw [if_neg hrunning] at h
    cases hfetched : m.fetched with
    | ok d =>
      rw [hfetched] at h
      cases h
    | error u => exact ⟨_, Memory.Looked.refl.reads _ _, rfl⟩

/-! ### The stack and the memory -/

/-- What an instruction makes of the stack. A `pop` takes the newest entry off
even if it cannot be stored. -/
theorem stack_execute (i : Instruction) :
    (m.execute i).state.stack =
      match i with
      | .push a => m.value a :: m.stack
      | .call _ => m.pc :: m.stack
      | .pop _ | .ret => m.stack.tail
      | _ => m.stack := by
  cases i with
  | pop dst =>
    simp only [execute]
    split
    next hstack => rw [stack_assign, hstack, List.tail_cons]
    next hstack => rw [hstack, List.tail_nil]
  | ret =>
    simp only [execute]
    split
    next hstack => rw [hstack]; rfl
    next hstack => rw [hstack]; rfl
  | mod dst a b =>
    simp only [execute]
    split
    next => rfl
    next => exact m.stack_assign _ dst _
  | jt a target =>
    simp only [execute]
    split <;> rfl
  | jf a target =>
    simp only [execute]
    split <;> rfl
  | inp dst => exact m.stack_readChar _ dst
  | _ =>
    first
    | rfl
    | exact stack_assign _ _ _ _

/-- What an instruction makes of the memory. Only `wmem` writes to it; `rmem` reads
a cell. -/
theorem memory_execute (i : Instruction) :
    (m.execute i).state.memory =
      match i with
      | .wmem address a => m.memory.write (m.value address) (m.value a)
      | .rmem _ address => m.memory.afterRead (m.value address)
      | _ => m.memory := by
  cases i with
  | pop dst =>
    simp only [execute]
    split
    next => exact memory_assign _ _ dst _
    next => rfl
  | ret =>
    simp only [execute]
    split <;> rfl
  | mod dst a b =>
    simp only [execute]
    split
    next => rfl
    next => exact m.memory_assign _ dst _
  | jt a target =>
    simp only [execute]
    split <;> rfl
  | jf a target =>
    simp only [execute]
    split <;> rfl
  | inp dst => exact m.memory_readChar _ dst
  | _ =>
    first
    | rfl
    | exact memory_assign _ _ _ _

end Machine

end Synacor

end Retrocore
