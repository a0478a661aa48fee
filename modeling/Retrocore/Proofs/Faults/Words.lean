import Retrocore.Proofs.Disassembly.Locality
import Retrocore.Proofs.Faults.BreakingOff
import Retrocore.Proofs.Frames.Words

/-!
# Steps of the word machines that break off

At the baskets of the little man and at the console an observer can refuse. On
the Synacor machine there is more that an instruction can fail at: a stack that
is empty, a divisor of zero, and a number where a register is to be stored to.
The number is noticed last, when the stack, the queue or a cell has been read
already (`Breaks`). The program counter is behind the instruction in any case.
-/

namespace Retrocore

/-- A step of a machine that rests once it is halted, and else runs what it has
fetched: where there is something to run, it fails as the instruction does. -/
theorem step_eq_error_iff_execute {σ ι : Type} {m m' : σ} {fault : Fault} {step : Ran σ}
    {halted : Bool} {fetched : Except Undecodable (Decoded ι)} {execute : Decoded ι → Ran σ}
    (hrests : halted = true → step = ⟨m, .ok 1⟩)
    (hruns : halted = false → ∀ d, fetched = .ok d → step = execute d)
    (hread : ¬ (halted = false ∧ ∃ u, fetched = .error u)) :
    step = ⟨m', .error fault⟩ ↔
      halted = false ∧ ∃ d, fetched = .ok d ∧ execute d = ⟨m', .error fault⟩ := by
  constructor
  · intro h
    cases halted with
    | true =>
      rw [hrests rfl] at h
      cases h
    | false =>
      cases fetched with
      | ok d =>
        rw [hruns rfl d rfl] at h
        exact ⟨rfl, d, rfl, h⟩
      | error u => exact absurd ⟨rfl, u, rfl⟩ hread
  · rintro ⟨hrunning, d, hd, h⟩
    rw [hruns hrunning d hd]
    exact h

/-! ## The Little Man Computer -/

namespace Lmc

/-- The basket that an instruction puts the accumulator into. -/
def Instruction.outBasket? : Instruction → Option Port
  | .out => some .out
  | .otc => some .otc
  | _ => none

namespace Machine

variable {μ δ : Type} [Mapper μ Word] [Observer δ Port Word] {m m' : Machine μ δ} {fault : Fault}

/-- What an instruction leaves that is refused. -/
inductive Breaks (m : Machine μ δ) : Instruction → Fault → Machine μ δ → Prop
  | asked {observers : List δ} {fault : Fault}
    (hrefused : Observer.notifyIn m.observers Port.inp = (observers, .error fault)) :
    Breaks m .inp fault { m with observers }
  | told {i : Instruction} {port : Port} {observers : List δ} {fault : Fault}
    (hport : i.outBasket? = some port)
    (hrefused : Observer.notifyOut m.observers port m.acc = (observers, .error fault)) :
    Breaks m i fault { m with observers }

omit [Mapper μ Word] in
/-- An output fails if an observer does. -/
theorem putOut_eq_error_iff {port : Port} :
    m.putOut port = ⟨m', .error fault⟩ ↔
      ∃ observers, Observer.notifyOut m.observers port m.acc = (observers, .error fault) ∧
        m' = { m with observers } := by
  unfold putOut
  generalize Observer.notifyOut m.observers port m.acc = heard
  obtain ⟨observers, result⟩ := heard
  cases result with
  | ok =>
    constructor
    · intro h
      cases h
    · rintro ⟨_, h, _⟩
      cases h
  | error refusal =>
    constructor
    · intro h
      cases h
      exact ⟨observers, rfl, rfl⟩
    · rintro ⟨_, h, rfl⟩
      cases h
      rfl

/-- An instruction fails where it is refused, and nowhere else. -/
theorem execute_eq_error_iff {i : Instruction} :
    m.execute i = ⟨m', .error fault⟩ ↔ m.Breaks i fault m' := by
  constructor
  · intro h
    cases i with
    | inp =>
      simp only [execute] at h
      split at h
      next hrefused =>
        cases h
        exact .asked hrefused
      next => cases h
      next => split at h <;> cases h
    | out =>
      obtain ⟨observers, hrefused, rfl⟩ := putOut_eq_error_iff.mp h
      exact .told rfl hrefused
    | otc =>
      obtain ⟨observers, hrefused, rfl⟩ := putOut_eq_error_iff.mp h
      exact .told rfl hrefused
    | sub address => cases congrArg Ran.result h
    | _ => cases h
  · intro h
    cases h with
    | asked hrefused => simp only [execute, hrefused]
    | told hport hrefused =>
      cases i with
      | out =>
        cases hport
        exact putOut_eq_error_iff.mpr ⟨_, hrefused, rfl⟩
      | otc =>
        cases hport
        exact putOut_eq_error_iff.mpr ⟨_, hrefused, rfl⟩
      | _ => cases hport

omit [Mapper μ Word] in
/-- Apart from the observers nothing has changed by then. -/
theorem Breaks.keeps {i : Instruction} (h : m.Breaks i fault m') :
    m' = { m with observers := m'.observers } := by
  cases h <;> rfl

/-- The cell at the program counter stands for no instruction. -/
def Unread (m : Machine μ δ) : Prop := m.halted = false ∧ ∃ u, m.fetched = .error u

/-- What a step leaves that breaks off. -/
def Leaves (m : Machine μ δ) (fault : Fault) (m' : Machine μ δ) : Prop :=
  m.halted = false ∧
    ∃ d, m.fetched = .ok d ∧ m.advance.Breaks d.instruction fault m'

theorem step_eq_error_iff (hread : ¬ m.Unread) :
    m.step = ⟨m', .error fault⟩ ↔ m.Leaves fault m' := by
  unfold Leaves
  simp only [← execute_eq_error_iff]
  refine step_eq_error_iff_execute (m := m) (fun hhalted => ?_) (fun hrunning _ hd => ?_) hread
  · unfold step
    rw [if_pos hhalted]
  · exact step_of_fetched hrunning hd

/-- The program counter is left behind the instruction. -/
theorem pc_of_leaves (h : m.Leaves fault m') : m'.pc = m.pc + 1 := by
  obtain ⟨_, _, _, hbreaks⟩ := h
  rw [hbreaks.keeps]
  rfl

/-- The mailbox that holds the instruction is all that has been read. -/
theorem looked_of_leaves (h : m.Leaves fault m') : m.memory.Looked m'.memory := by
  obtain ⟨_, _, _, hbreaks⟩ := h
  rw [hbreaks.keeps]
  exact .read .refl _

/-- What a step that breaks off may change is taken from another machine: the
program counter, the memory where its mapper makes something of a read, and the
observers. -/
def restore (m' m : Machine μ δ) : Machine μ δ :=
  { m' with pc := m.pc, memory := m.memory, observers := m.observers }

/-- Everything else is put back by the fields that are listed. -/
theorem restore_of_leaves (h : m.Leaves fault m') : m'.restore m = m := by
  obtain ⟨_, _, _, hbreaks⟩ := h
  rw [hbreaks.keeps]
  rfl

/-- The steps of the little man that break off. -/
theorem breaksOff : BreaksOff (σ := Machine μ δ) (·.memory) Unread Leaves restore where
  iff_leaves _ _ _ hread := step_eq_error_iff hread
  moved m m' _ hread h := by
    show m'.pc.toUInt16 ≠ m.pc.toUInt16
    rw [pc_of_leaves ((step_eq_error_iff hread).mp h), Ne, UInt8.toUInt16_inj, UInt8.add_eq_left]
    decide
  looked _ _ _ hread h := looked_of_leaves ((step_eq_error_iff hread).mp h)
  restored _ _ _ hread h := restore_of_leaves ((step_eq_error_iff hread).mp h)

end Machine

end Lmc

/-! ## The Synacor machine -/

namespace Synacor

/-- Whether the instruction does nothing but store a number, which it has from its
arguments. -/
def Instruction.isStore : Instruction → Bool
  | .set .. | .eq .. | .gt .. | .add .. | .mult .. | .and .. | .or .. | .not .. => true
  | _ => false

namespace Machine

variable {μ δ : Type} {m m' : Machine μ δ} {fault : Fault}

/-- A result fails if it has no register to go to. -/
theorem assign_eq_error_iff {op : Op} {dst : Arg} {v : Word} :
    m.assign op dst v = ⟨m', .error fault⟩ ↔ op.dst dst = .error fault ∧ m' = m := by
  unfold assign
  cases op.dst dst with
  | ok r =>
    constructor
    · intro h
      cases h
    · rintro ⟨h, _⟩
      cases h
  | error misplaced =>
    constructor
    · intro h
      cases h
      exact ⟨rfl, rfl⟩
    · rintro ⟨h, rfl⟩
      cases h
      rfl

variable [Mapper μ Word] [Observer δ Byte Byte]

/-- What an instruction leaves that fails. -/
inductive Breaks (m : Machine μ δ) : Instruction → Fault → Machine μ δ → Prop
  /-- There is no register to store to. -/
  | misplaced {i : Instruction} {fault : Fault} (hstore : i.isStore = true)
    (hdst : i.dst = .error fault) : Breaks m i fault m
  /-- The cell has been read by then. -/
  | remembered {dst address : Arg} {fault : Fault} (hdst : Op.rmem.dst dst = .error fault) :
    Breaks m (.rmem dst address) fault
      { m with memory := m.memory.afterRead (m.value address) }
  | divided {dst a b : Arg} (hzero : m.value b = 0) :
    Breaks m (.mod dst a b) (.misuse "mod by zero") m
  | remainder {dst a b : Arg} {fault : Fault} (hnonzero : m.value b ≠ 0)
    (hdst : Op.mod.dst dst = .error fault) : Breaks m (.mod dst a b) fault m
  | underflow {dst : Arg} (hstack : m.stack = []) : Breaks m (.pop dst) .stackUnderflow m
  /-- The number that was on top is lost. -/
  | popped {dst : Arg} {v : Word} {stack : List Word} {fault : Fault}
    (hstack : m.stack = v :: stack) (hdst : Op.pop.dst dst = .error fault) :
    Breaks m (.pop dst) fault { m with stack }
  | told {a : Arg} {observers : List δ} {fault : Fault}
    (hrefused : Observer.notifyOut m.observers consolePort (lowByte (m.value a)) =
      (observers, .error fault)) :
    Breaks m (.out a) fault { m with observers }
  | asked {dst : Arg} {observers : List δ} {fault : Fault}
    (hrefused : Observer.notifyIn m.observers consolePort = (observers, .error fault)) :
    Breaks m (.inp dst) fault { m with observers }
  /-- The character that an observer supplied is lost. -/
  | answered {dst : Arg} {c : Byte} {observers : List δ} {fault : Fault}
    (hanswer : Observer.notifyIn m.observers consolePort = (observers, .ok (some c)))
    (hdst : Op.inp.dst dst = .error fault) :
    Breaks m (.inp dst) fault { m with observers }
  /-- The first of the characters queued is lost. -/
  | queued {dst : Arg} {c : Byte} {input : List Byte} {observers : List δ} {fault : Fault}
    (hanswer : Observer.notifyIn m.observers consolePort = (observers, .ok none))
    (hinput : m.input = c :: input) (hdst : Op.inp.dst dst = .error fault) :
    Breaks m (.inp dst) fault { m with observers, input }

/-- An input fails if an observer does, or if it has nowhere to go. -/
theorem readChar_eq_error_iff {dst : Arg} :
    m.readChar (.inp dst) dst = ⟨m', .error fault⟩ ↔ m.Breaks (.inp dst) fault m' := by
  constructor
  · intro h
    unfold readChar at h
    split at h
    next hrefused =>
      cases h
      exact .asked hrefused
    next hanswer =>
      obtain ⟨hdst, rfl⟩ := assign_eq_error_iff.mp h
      exact .answered hanswer hdst
    next hanswer =>
      split at h
      next hinput =>
        obtain ⟨hdst, rfl⟩ := assign_eq_error_iff.mp h
        exact .queued hanswer hinput hdst
      next => cases h
  · intro h
    unfold readChar
    cases h with
    | misplaced hstore => cases hstore
    | asked hrefused => simp only [hrefused]
    | answered hanswer hdst =>
      simp only [hanswer]
      exact assign_eq_error_iff.mpr ⟨hdst, rfl⟩
    | queued hanswer hinput hdst =>
      simp only [hanswer, hinput]
      exact assign_eq_error_iff.mpr ⟨hdst, rfl⟩

/-- An instruction fails in these ways and no other. -/
theorem execute_eq_error_iff {i : Instruction} :
    m.execute i = ⟨m', .error fault⟩ ↔ m.Breaks i fault m' := by
  constructor
  · intro h
    cases i with
    | inp dst => exact readChar_eq_error_iff.mp h
    | rmem dst address =>
      obtain ⟨hdst, rfl⟩ := assign_eq_error_iff.mp h
      exact .remembered hdst
    | pop dst =>
      simp only [execute] at h
      split at h
      next hstack =>
        obtain ⟨hdst, rfl⟩ := assign_eq_error_iff.mp h
        exact .popped hstack hdst
      next hstack =>
        cases h
        exact .underflow hstack
    | mod dst a b =>
      simp only [execute] at h
      split at h
      next hzero =>
        cases h
        exact .divided hzero
      next hnonzero =>
        obtain ⟨hdst, rfl⟩ := assign_eq_error_iff.mp h
        exact .remainder hnonzero hdst
    | out a =>
      cases hout : Observer.notifyOut m.observers consolePort (lowByte (m.value a)) with
      | mk observers result =>
        simp only [execute, hout] at h
        cases result with
        | ok => cases h
        | error refusal =>
          cases h
          exact .told hout
    | ret =>
      simp only [execute] at h
      split at h <;> cases h
    | halt => cases h
    | push a => cases h
    | jmp target => cases h
    | jt a target => cases h
    | jf a target => cases h
    | wmem address a => cases h
    | call target => cases h
    | noop => cases h
    | _ =>
      -- the eight that only store
      obtain ⟨hdst, rfl⟩ := assign_eq_error_iff.mp h
      exact .misplaced rfl hdst
  · intro h
    cases h with
    | misplaced hstore hdst =>
      cases i with
      | set => exact assign_eq_error_iff.mpr ⟨hdst, rfl⟩
      | eq => exact assign_eq_error_iff.mpr ⟨hdst, rfl⟩
      | gt => exact assign_eq_error_iff.mpr ⟨hdst, rfl⟩
      | add => exact assign_eq_error_iff.mpr ⟨hdst, rfl⟩
      | mult => exact assign_eq_error_iff.mpr ⟨hdst, rfl⟩
      | and => exact assign_eq_error_iff.mpr ⟨hdst, rfl⟩
      | or => exact assign_eq_error_iff.mpr ⟨hdst, rfl⟩
      | not => exact assign_eq_error_iff.mpr ⟨hdst, rfl⟩
      | _ => cases hstore
    | remembered hdst => exact assign_eq_error_iff.mpr ⟨hdst, rfl⟩
    | divided hzero =>
      simp only [execute, hzero, if_true]
    | remainder hnonzero hdst =>
      simp only [execute, hnonzero, if_false]
      exact assign_eq_error_iff.mpr ⟨hdst, rfl⟩
    | underflow hstack => simp only [execute, hstack]
    | popped hstack hdst =>
      simp only [execute, hstack]
      exact assign_eq_error_iff.mpr ⟨hdst, rfl⟩
    | told hrefused =>
      simp only [execute, hrefused]
      rfl
    | asked hrefused => exact readChar_eq_error_iff.mpr (.asked hrefused)
    | answered hanswer hdst => exact readChar_eq_error_iff.mpr (.answered hanswer hdst)
    | queued hanswer hinput hdst => exact readChar_eq_error_iff.mpr (.queued hanswer hinput hdst)

/-- Apart from the stack, the memory, the queue and the observers nothing has
changed by then. -/
theorem Breaks.keeps {i : Instruction} (h : m.Breaks i fault m') :
    m' = { m with
      stack := m'.stack, memory := m'.memory, input := m'.input, observers := m'.observers } := by
  cases h <;> rfl

/-- No number has been stored in the memory. -/
theorem Breaks.looked {i : Instruction} (h : m.Breaks i fault m') :
    m.memory.Looked m'.memory := by
  cases h with
  | remembered => exact .read .refl _
  | _ => exact .refl

/-- The cells at the program counter stand for no instruction. -/
def Unread (m : Machine μ δ) : Prop := m.halted = false ∧ ∃ u, m.fetched = .error u

/-- What a step leaves that breaks off. -/
def Leaves (m : Machine μ δ) (fault : Fault) (m' : Machine μ δ) : Prop :=
  m.halted = false ∧
    ∃ d, m.fetched = .ok d ∧
      (m.advance d.length).Breaks d.instruction fault m'

theorem step_eq_error_iff (hread : ¬ m.Unread) :
    m.step = ⟨m', .error fault⟩ ↔ m.Leaves fault m' := by
  unfold Leaves
  simp only [← execute_eq_error_iff]
  refine step_eq_error_iff_execute (m := m) (fun hhalted => ?_) (fun hrunning _ hd => ?_) hread
  · unfold step
    rw [if_pos hhalted]
  · exact step_of_fetched hrunning hd

/-- The program counter is never left where it was. -/
theorem pc_of_leaves (h : m.Leaves fault m') : m'.pc ≠ m.pc := by
  obtain ⟨_, d, hfetched, hbreaks⟩ := h
  have hpc : m'.pc = m.pc + UInt16.ofNat d.length := by
    rw [hbreaks.keeps]
    rfl
  have hlength : d.length ≤ 4 := decode_length_le hfetched
  rw [hpc]
  exact add_ofNat_ne _ (decode_length_pos hfetched) (by omega)

/-- The memory has only been looked at. -/
theorem looked_of_leaves (h : m.Leaves fault m') : m.memory.Looked m'.memory := by
  obtain ⟨_, _, _, hbreaks⟩ := h
  exact (Memory.Looked.reads .refl _ _).trans hbreaks.looked

/-- What a step that breaks off may change is taken from another machine: the
program counter, the stack, the memory where its mapper makes something of a read,
the queue and the observers. -/
def restore (m' m : Machine μ δ) : Machine μ δ :=
  { m' with
    pc := m.pc
    stack := m.stack
    memory := m.memory
    input := m.input
    observers := m.observers }

/-- Everything else is put back by the fields that are listed. -/
theorem restore_of_leaves (h : m.Leaves fault m') : m'.restore m = m := by
  obtain ⟨_, d, _, hbreaks⟩ := h
  rw [hbreaks.keeps]
  rfl

/-- The steps of the Synacor machine that break off. -/
theorem breaksOff : BreaksOff (σ := Machine μ δ) (·.memory) Unread Leaves restore where
  iff_leaves _ _ _ hread := step_eq_error_iff hread
  moved _ _ _ hread h := pc_of_leaves ((step_eq_error_iff hread).mp h)
  looked _ _ _ hread h := looked_of_leaves ((step_eq_error_iff hread).mp h)
  restored _ _ _ hread h := restore_of_leaves ((step_eq_error_iff hread).mp h)

end Machine

end Synacor

end Retrocore
