import Retrocore.Proofs.Operations
import Retrocore.Proofs.Frames.Z80

/-!
# The two flip-flops of the Z80

The first flip-flop lets interrupts through, the second holds what the first was
before a non-maskable interrupt. They are written by DI, EI and RETN, by the
delivery of either kind of interrupt, and by a reset. `iff1_backed_by_iff2` says
what is kept however these follow one another: the first flip-flop is never set
while the second is clear. A RETN therefore never shuts interrupts off, and
nothing but the delivery of a non-maskable interrupt makes the two differ.

The invariant is one of the latches alone (`Control.Backed`). A step changes them
twice, first as the processor decides what to do and then by the instruction;
between the two a mode-zero service has cleared both, so that a RETN that a
device supplies finds nothing to shut off.
-/

namespace Retrocore.Z80

open Operable

/-! ## Commands -/

/-- What is done to a Z80 from outside. -/
inductive Command (δ : Type) where
  | signal (signal : Signal)
  | reset
  | start
  | stop
  | input (port v : Byte)
  | connect (observer : δ)

instance {μ δ : Type} [Mapper μ Byte] [Observer δ Byte Byte] :
    Operable (Machine μ δ) (Command δ) where
  perform m
    | .signal signal => perform m signal
    | .reset => m.reset
    | .start => m.start
    | .stop => m.stop
    | .input port v => m.input port v
    | .connect observer => m.connect observer

/-! ## The latches -/

/-- The first flip-flop is set only if the second is. -/
def Control.Backed (c : Control) : Prop := c.iff1 = true → c.iff2 = true

/-- The flip-flops show the same. -/
def Control.Level (c : Control) : Prop := c.iff1 = c.iff2

/-- EI sets both, and RETN copies the second. -/
theorem Instruction.backed_controlAfter (i : Instruction) {c : Control} (h : c.Backed) :
    (i.controlAfter c).Backed := by
  cases i with
  | retn => exact fun hiff2 => hiff2
  | di => exact fun hiff1 => hiff1
  | ei => exact fun hiff1 => hiff1
  | _ => exact h

/-- What RETN copies to the first flip-flop is set if that was. -/
theorem Control.Backed.retn {c : Control} (h : c.Backed) (hiff1 : c.iff1 = true) :
    (Instruction.retn.controlAfter c).iff1 = true :=
  h hiff1

/-- No instruction makes the flip-flops differ. -/
theorem Instruction.level_controlAfter (i : Instruction) {c : Control} (h : c.Level) :
    (i.controlAfter c).Level := by
  cases i with
  | retn => exact rfl
  | di => exact rfl
  | ei => exact rfl
  | _ => exact h

namespace Machine

/-- Both kinds of interrupt clear the first flip-flop. -/
theorem Action.backed_controlAfter (action : Action) {c : Control} (h : c.Backed) :
    (action.controlAfter c).Backed := by
  cases action with
  | nmi => exact fun hiff1 => absurd hiff1 Bool.false_ne_true
  | service byte => exact fun hiff1 => absurd hiff1 Bool.false_ne_true
  | idle => exact h
  | run => exact h

/-- Only a non-maskable interrupt leaves the second as the first was. -/
theorem Action.level_controlAfter {action : Action} (hnmi : action ≠ .nmi) {c : Control}
    (h : c.Level) : (action.controlAfter c).Level := by
  cases action with
  | nmi => exact absurd rfl hnmi
  | service byte => exact rfl
  | idle => exact h
  | run => exact h

/-! ## Steps -/

variable {μ δ : Type} [Mapper μ Byte] [Observer δ Byte Byte] {m : Machine μ δ}

/-- The latches as the instruction of the next step finds them: a service has
cleared both flip-flops before it. -/
def latchesFound (m : Machine μ δ) : Control := m.action.controlAfter m.control

/-- Every step keeps IFF1 backed, delivery of a non-maskable interrupt included. -/
theorem backed_step (h : m.control.Backed) : m.step.state.control.Backed := by
  have hfound : m.latchesFound.Backed := Action.backed_controlAfter m.action h
  rw [m.control_step]
  cases m.executed? with
  | none => exact hfound
  | some i => exact i.backed_controlAfter hfound

/-- A step that delivers no non-maskable interrupt keeps the flip-flops the
same, if they were. -/
theorem level_step (hnmi : m.action ≠ .nmi) (h : m.control.Level) :
    m.step.state.control.Level := by
  have hfound : m.latchesFound.Level := Action.level_controlAfter hnmi h
  rw [m.control_step]
  cases m.executed? with
  | none => exact hfound
  | some i => exact i.level_controlAfter hfound

/-- The delivery of a non-maskable interrupt moves the first flip-flop to the
second. -/
theorem iff_step_of_nmi (hnmi : m.action = .nmi) :
    m.step.state.iff1 = false ∧ m.step.state.iff2 = m.iff1 := by
  rw [step_of_nmi hnmi]
  exact ⟨rfl, rfl⟩

/-- RETN finds IFF2 set where IFF1 is, and sets IFF1. -/
theorem iff1_step_of_retn (h : m.control.Backed) (hretn : m.executed? = some .retn)
    (hiff1 : m.latchesFound.iff1 = true) : m.step.state.iff1 = true := by
  have hcontrol := m.control_step
  rw [hretn] at hcontrol
  have hfound : m.latchesFound.Backed := Action.backed_controlAfter m.action h
  exact (congrArg Control.iff1 hcontrol).trans (hfound.retn hiff1)

/-! ## Runs -/

theorem backed_perform (h : m.control.Backed) (command : Command δ) :
    (perform m command).control.Backed := by
  cases command with
  | signal signal =>
    cases signal with
    | step => exact backed_step h
    | interrupt byte => exact h
    | nmi => exact h
  | reset => exact fun hiff1 => absurd hiff1 Bool.false_ne_true
  | start => exact h
  | stop => exact h
  | input port v => exact h
  | connect observer => exact h

/-- So in every run IFF1 is set only if IFF2 is. -/
theorem backed_after (run : List (Command δ)) (h : m.control.Backed) :
    (after m run).control.Backed := by
  induction run generalizing m with
  | nil => exact h
  | cons command run ih => exact ih (backed_perform h command)

/-- Nothing but a non-maskable interrupt sets the two apart. -/
theorem level_perform (h : m.control.Level) {command : Command δ}
    (hquiet : command = .signal .step → m.action ≠ .nmi) : (perform m command).control.Level := by
  cases command with
  | signal signal =>
    cases signal with
    | step => exact level_step (hquiet rfl) h
    | interrupt byte => exact h
    | nmi => exact h
  | reset => exact rfl
  | start => exact h
  | stop => exact h
  | input port v => exact h
  | connect observer => exact h

/-- Of all commands only a step that delivers a non-maskable interrupt makes the
flip-flops differ, and it does if interrupts were let through. -/
theorem not_level_perform_iff (h : m.control.Level) (command : Command δ) :
    ¬ (perform m command).control.Level ↔
      command = .signal .step ∧ m.action = .nmi ∧ m.iff1 = true := by
  constructor
  · intro hdiffer
    by_cases hdelivery : command = .signal .step ∧ m.action = .nmi
    · obtain ⟨rfl, hnmi⟩ := hdelivery
      obtain ⟨hiff1, hiff2⟩ := iff_step_of_nmi hnmi
      refine ⟨rfl, hnmi, (Bool.not_eq_false m.iff1).mp fun hclear => hdiffer ?_⟩
      exact hiff1.trans (hiff2.trans hclear).symm
    · exact absurd (level_perform h fun hstep hnmi => hdelivery ⟨hstep, hnmi⟩) hdiffer
  · rintro ⟨rfl, hnmi, hset⟩ hlevel
    obtain ⟨hiff1, hiff2⟩ := iff_step_of_nmi hnmi
    have hsame : m.step.state.iff1 = m.step.state.iff2 := hlevel
    rw [hiff1, hiff2, hset] at hsame
    cases hsame

/-- **The first flip-flop is never set while the second is clear**, from the
construction of the processor on and whatever is done to it. So no RETN clears
the first flip-flop where it finds it set, and where the two are the same a
command makes them differ exactly if it is a step that delivers a non-maskable
interrupt while interrupts are let through. -/
theorem iff1_backed_by_iff2 (memory : Memory μ Byte) (pc : Word) (run : List (Command δ)) :
    let m : Machine μ δ := after (new memory pc) run
    (m.iff1 = true → m.iff2 = true) ∧
    (m.executed? = some .retn → m.latchesFound.iff1 = true → m.step.state.iff1 = true) ∧
    (m.iff1 = m.iff2 → ∀ command : Command δ,
      (perform m command).iff1 ≠ (perform m command).iff2 ↔
        command = .signal .step ∧ m.action = .nmi ∧ m.iff1 = true) := by
  intro m
  have hnew : (new memory pc : Machine μ δ).control.Backed :=
    fun hiff1 => absurd hiff1 Bool.false_ne_true
  have hbacked : m.control.Backed := backed_after run hnew
  exact ⟨hbacked, iff1_step_of_retn hbacked, not_level_perform_iff⟩

/-- A program that lets interrupts through and goes on with a RETN. -/
def openingProgram : Memory Empty Byte := .ofList [0xfb, 0xed, 0x45]

/-- The RETN behind the EI leaves interrupts on. A non-maskable interrupt that is
requested before it makes the flip-flops differ when it is delivered. -/
theorem iff1_backed_by_iff2_opening :
    let run : List (Command (Recorder Byte Byte)) := [.signal .step]
    let m : Machine Empty (Recorder Byte Byte) := after (new openingProgram 0) run
    let n : Machine Empty (Recorder Byte Byte) :=
      after (new openingProgram 0) (run ++ [.signal .nmi])
    (m.iff1 = true ∧ m.iff2 = true) ∧
    (m.executed? = some .retn ∧ m.latchesFound.iff1 = true ∧ m.step.state.iff1 = true) ∧
    (n.iff1 = n.iff2 ∧ n.step.state.iff1 ≠ n.step.state.iff2) := by
  intro run m n
  obtain ⟨hbacked, hretn, -⟩ := iff1_backed_by_iff2 openingProgram 0 run
  obtain ⟨-, -, hdiffer⟩ := iff1_backed_by_iff2 openingProgram 0 (run ++ [.signal .nmi])
  have hopen : m.iff1 = true := by decide +kernel
  have hexecuted : m.executed? = some .retn := by decide +kernel
  have hfound : m.latchesFound.iff1 = true := by decide +kernel
  have hlevel : n.iff1 = n.iff2 := by decide +kernel
  have hdelivery : n.action = .nmi ∧ n.iff1 = true := by decide +kernel
  exact ⟨⟨hopen, hbacked hopen⟩, ⟨hexecuted, hfound, hretn hexecuted hfound⟩, hlevel,
    (hdiffer hlevel (.signal .step)).mpr ⟨rfl, hdelivery⟩⟩

end Machine

end Retrocore.Z80
