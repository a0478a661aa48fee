import Retrocore.Proofs.Operations
import Retrocore.Proofs.Frames.I8080
import Retrocore.Proofs.Frames.Z80

/-!
# Interrupts stay shut off until EI

Servicing a request shuts interrupts off. `shut_off_until_ei` says that they
stay so until an EI is run, whatever else the program does and whatever is
requested meanwhile. On the Z80 this is about two flip-flops: a non-maskable
interrupt saves the first in the second, and RETN copies it back, so
`ShutOff` demands that both are clear.
-/

namespace Retrocore

open Operable

variable {μ δ : Type}

/-! ## The 8080 -/

namespace I8080.Machine

variable [Mapper μ Byte] [Observer δ Byte Byte] {m : Machine μ δ}

/-- The call does not run an EI. -/
def RunsNoEi (m : Machine μ δ) (c : Call) : Prop := c = .step → m.executed? ≠ some .ei

instance (m : Machine μ δ) (c : Call) : Decidable (m.RunsNoEi c) :=
  inferInstanceAs (Decidable (c = .step → m.executed? ≠ some .ei))

/-- A step that starts with interrupts shut off, or shuts them off, leaves them
so unless it runs an EI. -/
theorem inte_step (hshut : (m.action.controlAfter m.control).inte = false)
    (hei : m.executed? ≠ some .ei) : m.step.state.inte = false := by
  have hcontrol := congrArg Control.inte m.control_step
  cases hexecuted : m.executed? with
  | none =>
    rw [hexecuted] at hcontrol
    exact hcontrol.trans hshut
  | some i =>
    rw [hexecuted] at hcontrol hei
    have hi : i ≠ .ei := fun h => hei (congrArg some h)
    exact hcontrol.trans (Instruction.inte_controlAfter hi hshut)

theorem inte_step_of_service {opcode : Byte} (hservice : m.action = .service opcode)
    (hei : m.executed? ≠ some .ei) : m.step.state.inte = false := by
  refine inte_step ?_ hei
  rw [hservice]
  rfl

/-- Every call keeps interrupts shut off, unless it runs an EI. -/
theorem inte_perform (hshut : m.inte = false) {c : Call} (hquiet : m.RunsNoEi c) :
    (perform m c).inte = false := by
  cases c with
  | step =>
    refine inte_step ?_ (hquiet rfl)
    cases m.action with
    | service opcode => rfl
    | idle => exact hshut
    | run => exact hshut
  | interrupt byte => exact hshut

end I8080.Machine

/-! ## The Z80 -/

namespace Z80

/-- Both flip-flops are clear, so that no RETN can let interrupts through. -/
structure Control.ShutOff (c : Control) : Prop where
  iff1 : c.iff1 = false
  iff2 : c.iff2 = false

/-- Only EI lets interrupts through. -/
theorem Instruction.shutOff_controlAfter {i : Instruction} (hei : i ≠ .ei) {c : Control}
    (h : c.ShutOff) : (i.controlAfter c).ShutOff := by
  cases i with
  | ei => exact absurd rfl hei
  | di => exact ⟨rfl, rfl⟩
  | retn => exact ⟨h.iff2, h.iff2⟩
  | _ => exact ⟨h.iff1, h.iff2⟩

namespace Machine

/-- Neither kind of interrupt lets others through when it is serviced. -/
theorem Action.shutOff_controlAfter (action : Action) {c : Control} (h : c.ShutOff) :
    (action.controlAfter c).ShutOff := by
  cases action with
  | nmi => exact ⟨rfl, h.iff1⟩
  | service byte => exact ⟨rfl, rfl⟩
  | idle => exact h
  | run => exact h

variable [Mapper μ Byte] [Observer δ Byte Byte] {m : Machine μ δ}

/-- The signal does not run an EI. -/
def RunsNoEi (m : Machine μ δ) (signal : Signal) : Prop :=
  signal = .step → m.executed? ≠ some .ei

instance (m : Machine μ δ) (signal : Signal) : Decidable (m.RunsNoEi signal) :=
  inferInstanceAs (Decidable (signal = .step → m.executed? ≠ some .ei))

/-- A step that starts with interrupts shut off, or shuts them off, leaves them
so unless it runs an EI. -/
theorem shutOff_step (hshut : (m.action.controlAfter m.control).ShutOff)
    (hei : m.executed? ≠ some .ei) : m.step.state.control.ShutOff := by
  rw [m.control_step]
  cases hexecuted : m.executed? with
  | none => exact hshut
  | some i =>
    rw [hexecuted] at hei
    have hi : i ≠ .ei := fun h => hei (congrArg some h)
    exact Instruction.shutOff_controlAfter hi hshut

theorem shutOff_step_of_service {byte : Byte} (hservice : m.action = .service byte)
    (hei : m.executed? ≠ some .ei) : m.step.state.control.ShutOff := by
  refine shutOff_step ?_ hei
  rw [hservice]
  exact ⟨rfl, rfl⟩

/-- Every signal keeps interrupts shut off, unless it runs an EI. -/
theorem shutOff_perform (hshut : m.control.ShutOff) {signal : Signal}
    (hquiet : m.RunsNoEi signal) : (perform m signal).control.ShutOff := by
  cases signal with
  | step => exact shutOff_step (Action.shutOff_controlAfter m.action hshut) (hquiet rfl)
  | interrupt byte => exact ⟨hshut.iff1, hshut.iff2⟩
  | nmi => exact ⟨hshut.iff1, hshut.iff2⟩

end Machine

end Z80

/-! ## Both -/

/-- **After a request has been serviced**, no other one is serviced in any run
of requests, non-maskable interrupts and steps until an EI has been run. The
runs start with the step that services the request: where this step itself runs
an EI, because that is what the request supplies, nothing is claimed. -/
theorem shut_off_until_ei (μ δ : Type) [Mapper μ Byte] [Observer δ Byte Byte] :
    (∀ (m : I8080.Machine μ δ) (opcode : Byte), m.action = .service opcode →
      ∀ calls : List Call, Each I8080.Machine.RunsNoEi m (.step :: calls) →
        (after m (Call.step :: calls)).inte = false ∧
        ∀ next, (after m (Call.step :: calls)).action ≠ .service next) ∧
    (∀ (m : Z80.Machine μ δ) (byte : Byte), m.action = .service byte →
      ∀ signals : List Z80.Signal, Each Z80.Machine.RunsNoEi m (.step :: signals) →
        (after m (Z80.Signal.step :: signals)).iff1 = false ∧
        ∀ next, (after m (Z80.Signal.step :: signals)).action ≠ .service next) := by
  constructor
  · intro m opcode hservice calls hquiet
    obtain ⟨hfirst, hrest⟩ := hquiet
    have hshut : (after m (Call.step :: calls)).inte = false :=
      after_keeps (I := fun s : I8080.Machine μ δ => s.inte = false)
        (fun _ _ hs hq => I8080.Machine.inte_perform hs hq) calls _
        (I8080.Machine.inte_step_of_service hservice (hfirst rfl)) hrest
    exact ⟨hshut, I8080.Machine.action_ne_service hshut⟩
  · intro m byte hservice signals hquiet
    obtain ⟨hfirst, hrest⟩ := hquiet
    have hshut : (after m (Z80.Signal.step :: signals)).control.ShutOff :=
      after_keeps (I := fun s : Z80.Machine μ δ => s.control.ShutOff)
        (fun _ _ hs hq => Z80.Machine.shutOff_perform hs hq) signals _
        (Z80.Machine.shutOff_step_of_service hservice (hfirst rfl)) hrest
    exact ⟨hshut.iff1, Z80.Machine.action_ne_service hshut.iff1⟩

/-- An 8080 that has been interrupted at its second instruction: the handler at 8
halts, whatever is requested then. -/
def haltingHandler : I8080.Machine Empty (Recorder Byte Byte) :=
  after (I8080.Machine.new (.ofList [0xfb, 0, 0, 0, 0, 0, 0, 0, 0x76]) 0)
    [Call.step, .interrupt 0xcf]

/-- A Z80 in mode one that has been interrupted at its third instruction: the
handler of the non-maskable interrupt is a RETN. -/
def returningHandler : Z80.Machine Empty (Recorder Byte Byte) :=
  after (Z80.Machine.new (.ofList ([0xed, 0x56, 0xfb] ++ List.replicate 99 0 ++ [0xed, 0x45])) 0)
    [Z80.Signal.step, .step, .interrupt 0xff]

/-- The 8080 stays halted, and the Z80 does not let a request through when it
returns from a non-maskable interrupt in the middle of its handler. -/
theorem shut_off_until_ei_returning :
    let calls : List Call := [.step, .interrupt 0xd7, .step]
    let signals : List Z80.Signal := [.nmi, .interrupt 0xc7, .step, .step, .step]
    haltingHandler.action = .service 0xcf ∧
    Each I8080.Machine.RunsNoEi haltingHandler (.step :: calls) ∧
    (∀ next, (after haltingHandler (Call.step :: calls)).action ≠ .service next) ∧
    returningHandler.action = .service 0xff ∧
    Each Z80.Machine.RunsNoEi returningHandler (.step :: signals) ∧
    (after returningHandler (Z80.Signal.step :: signals.take 3)).executed? = some .retn ∧
    (∀ next, (after returningHandler (Z80.Signal.step :: signals)).action ≠ .service next) := by
  intro calls signals
  obtain ⟨hi8080, hz80⟩ := shut_off_until_ei Empty (Recorder Byte Byte)
  have hhalting : haltingHandler.action = .service 0xcf := by decide +kernel
  have hcalls : Each I8080.Machine.RunsNoEi haltingHandler (.step :: calls) := by
    decide +kernel
  have hreturning : returningHandler.action = .service 0xff := by decide +kernel
  have hsignals : Each Z80.Machine.RunsNoEi returningHandler (.step :: signals) := by
    decide +kernel
  exact ⟨hhalting, hcalls, (hi8080 _ _ hhalting _ hcalls).2, hreturning, hsignals,
    by decide +kernel, (hz80 _ _ hreturning _ hsignals).2⟩

end Retrocore
