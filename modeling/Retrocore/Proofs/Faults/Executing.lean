import Retrocore.Proofs.Faults.I8080
import Retrocore.Proofs.Faults.Words
import Retrocore.Proofs.Faults.Z80

/-!
# Steps that fail while executing

A step whose cells can be read and that fails all the same is not undone:
`failing_steps_break_off` says for the four processors that can fail so which
steps these are, what each of them leaves, and that the program counter has
always moved. It also bounds the damage: registers apart from the program counter
survive, and so do flags, with two exceptions on the Z80, whose refresh register
has counted the fetches and whose B has been counted down if a block output is
refused. The memory has been read and never written to, and survives wherever
reads change nothing.
-/

namespace Retrocore

/-- **A step that fails while executing breaks off**, and what it has done by
then is not undone. -/
theorem failing_steps_break_off (μ δ ν ε : Type) [Mapper μ Byte] [Observer δ Byte Byte]
    [Mapper ν Word] [Observer ε Lmc.Port Word] :
    BreaksOff (σ := I8080.Machine μ δ) (·.memory) (fun _ => False) I8080.Machine.Leaves
        I8080.Machine.restore ∧
      BreaksOff (σ := Z80.Machine μ δ) (·.memory) Z80.Machine.Unread Z80.Machine.Leaves
        Z80.Machine.restore ∧
      BreaksOff (σ := Lmc.Machine ν ε) (·.memory) Lmc.Machine.Unread Lmc.Machine.Leaves
        Lmc.Machine.restore ∧
      BreaksOff (σ := Synacor.Machine ν δ) (·.memory) Synacor.Machine.Unread
        Synacor.Machine.Leaves Synacor.Machine.restore :=
  ⟨I8080.Machine.breaksOff, Z80.Machine.breaksOff, Lmc.Machine.breaksOff,
    Synacor.Machine.breaksOff⟩

/-- A number is popped into a number, and lost. -/
theorem failing_steps_break_off_popping :
    let memory : Memory Empty Word := .ofList [3, 7]
    let m : Synacor.Machine Empty (Recorder Byte Byte) :=
      { (.new memory 0 : Synacor.Machine Empty (Recorder Byte Byte)) with stack := [42] }
    m.step = ⟨{ m with pc := 2, stack := [] }, .error (.unrecognizedOpcode 3 .root)⟩ := by
  intro memory m
  obtain ⟨_, _, _, hsynacor⟩ :=
    failing_steps_break_off Empty (Recorder Byte Byte) Empty (Recorder Lmc.Port Word)
  have hfetched : m.fetched = .ok ⟨.pop (.lit 7), .root, 3, 2, 1⟩ := by with_unfolding_all rfl
  have hread : ¬ m.Unread := by
    rintro ⟨_, u, hu⟩
    rw [hfetched] at hu
    cases hu
  exact (hsynacor.iff_leaves m _ _ hread).mpr
    ⟨rfl, _, hfetched, .popped (m := m.jump 2) (v := 42) rfl rfl⟩

/-- An `outi` that is refused has moved the program counter, counted B down and
latched the value. -/
theorem refused_outi_counts :
    let cells : List Byte := [0xed, 0xa3, 0x2a]
    let blank : Z80.Machine Empty (Recorder Byte Byte) := .new (.ofList cells) 0
    let m : Z80.Machine Empty (Recorder Byte Byte) :=
      { blank with
        regs := { blank.regs with b := 3, c := 5, l := 2 }
        ports.observers := [{ refused := [5] }] }
    (m.action = .run ∧ m.fetched = .ok ⟨.block ⟨.out, false, false⟩, .extended, 0xa3, 2, 2⟩) ∧
      m.step.fault? = some (.illegalPort 5) ∧
      (m.regs.pc = 0 ∧ m.step.state.regs.pc = 2) ∧
      (m.regs.b = 3 ∧ m.step.state.regs.b = 2) ∧
      (m.ports.lastOut 5 = 0 ∧ m.step.state.ports.lastOut 5 = 42) := by
  intro cells blank m
  have hfetched :
      m.fetched = .ok ⟨.block ⟨.out, false, false⟩, .extended, 0xa3, 2, 2⟩ := by decide +kernel
  have hfault : m.step.fault? = some (.illegalPort 5) := by decide +kernel
  have hpc : m.step.state.regs.pc = 2 := by decide +kernel
  have hb : m.step.state.regs.b = 2 := by decide +kernel
  have hlatch : m.ports.lastOut 5 = 0 ∧ m.step.state.ports.lastOut 5 = 42 := by decide +kernel
  exact ⟨⟨rfl, hfetched⟩, hfault, ⟨rfl, hpc⟩, ⟨rfl, hb⟩, hlatch⟩

end Retrocore
