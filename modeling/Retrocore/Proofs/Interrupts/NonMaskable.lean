import Retrocore.Proofs.Operations
import Retrocore.Proofs.Frames.Z80

/-!
# Handlers of non-maskable interrupts

A non-maskable interrupt saves the first flip-flop of the Z80 in the second and
clears the first, so that its handler is not interrupted; RETN copies it back.
`enable_restored_by_retn` says that this works for handlers of any length and
content, as long as they run neither EI nor DI and no further non-maskable
interrupt is delivered: up to the first RETN no maskable request is serviced,
the newest one waits in the latch, and from the RETN on interrupts are let
through exactly if they were before.
-/

namespace Retrocore.Z80.Machine

open Operable

variable {μ δ : Type} [Mapper μ Byte] [Observer δ Byte Byte] {m : Machine μ δ}

/-- A step that follows the signal decides nothing about interrupts except,
perhaps, by a RETN. -/
def Undisturbed (m : Machine μ δ) (signal : Signal) : Prop :=
  signal = .step → m.action ≠ .nmi ∧ m.executed? ≠ some .ei ∧ m.executed? ≠ some .di

instance (m : Machine μ δ) (signal : Signal) : Decidable (m.Undisturbed signal) :=
  inferInstanceAs (Decidable (signal = .step →
    m.action ≠ .nmi ∧ m.executed? ≠ some .ei ∧ m.executed? ≠ some .di))

/-- The signal leaves the handler neither by a RETN nor otherwise. -/
def StaysInside (m : Machine μ δ) (signal : Signal) : Prop :=
  m.Undisturbed signal ∧ (signal = .step → m.executed? ≠ some .retn)

instance (m : Machine μ δ) (signal : Signal) : Decidable (m.StaysInside signal) :=
  inferInstanceAs (Decidable (_ ∧ (signal = .step → m.executed? ≠ some .retn)))

/-- The signal is not a step that services a maskable request. -/
def ServicesNothing (m : Machine μ δ) (signal : Signal) : Prop :=
  signal = .step → ∀ byte, m.action ≠ .service byte

/-- The request in the latch after further signals: the newest, or the one that
was there. -/
def newest (latched : Option Byte) (signals : List Signal) : Option Byte :=
  signals.foldl (fun latched signal => signal.requested?.or latched) latched

/-! ## Steps -/

/-- The delivery of a non-maskable interrupt runs no instruction. -/
theorem control_step_of_nmi (hnmi : m.action = .nmi) :
    m.step.state.control =
      { m.control with nmiPending := false, halted := false, iff1 := false, iff2 := m.iff1 } := by
  rw [step_of_nmi hnmi]
  rfl

/-- A step that services nothing leaves the latches to the instruction. -/
theorem control_step_of_quiet (hnmi : m.action ≠ .nmi) (hquiet : ∀ byte, m.action ≠ .service byte) :
    m.step.state.control = m.executed?.elim m.control (·.controlAfter m.control) := by
  rw [m.control_step]
  cases haction : m.action with
  | nmi => exact absurd haction hnmi
  | service byte => exact absurd haction (hquiet byte)
  | idle => rfl
  | run => rfl

/-- Without EI and DI, a step that services nothing leaves the second flip-flop
alone, and the first as well unless it runs a RETN. -/
theorem flipFlops_step (hnmi : m.action ≠ .nmi) (hquiet : ∀ byte, m.action ≠ .service byte)
    (hei : m.executed? ≠ some .ei) (hdi : m.executed? ≠ some .di) :
    m.step.state.iff2 = m.iff2 ∧
    m.step.state.iff1 = if m.executed? = some .retn then m.iff2 else m.iff1 := by
  have hcontrol := control_step_of_quiet hnmi hquiet
  cases hexecuted : m.executed? with
  | none =>
    rw [hexecuted] at hcontrol
    exact ⟨congrArg Control.iff2 hcontrol, congrArg Control.iff1 hcontrol⟩
  | some i =>
    rw [hexecuted] at hcontrol hei hdi
    have hi : i ≠ .ei := fun h => hei (congrArg some h)
    have hi' : i ≠ .di := fun h => hdi (congrArg some h)
    have hiff1 := (congrArg Control.iff1 hcontrol).trans
      (Instruction.iff1_controlAfter hi hi' m.control)
    have hiff2 := (congrArg Control.iff2 hcontrol).trans
      (Instruction.iff2_controlAfter hi hi' m.control)
    simp only [Option.some.injEq]
    exact ⟨hiff2, hiff1⟩

/-! ## Inside the handler -/

/-- A handler is running, and interrupts were let through before it if `enable`
is true. -/
structure InHandler (enable : Bool) (m : Machine μ δ) : Prop where
  iff1 : m.iff1 = false
  iff2 : m.iff2 = enable

variable {enable : Bool}

omit [Mapper μ Byte] [Observer δ Byte Byte] in
theorem InHandler.servicesNothing (h : m.InHandler enable) (byte : Byte) :
    m.action ≠ .service byte :=
  action_ne_service h.iff1 byte

/-- A signal that does not leave the handler keeps what it will restore, and the
newest request. -/
theorem InHandler.perform (h : m.InHandler enable) {signal : Signal}
    (hinside : m.StaysInside signal) :
    (perform m signal).InHandler enable ∧
    (perform m signal).pending = signal.requested?.or m.pending := by
  obtain ⟨hundisturbed, hretn⟩ := hinside
  cases signal with
  | step =>
    obtain ⟨hnmi, hei, hdi⟩ := hundisturbed rfl
    have hquiet := h.servicesNothing
    obtain ⟨hiff2, hiff1⟩ := flipFlops_step hnmi hquiet hei hdi
    rw [if_neg (hretn rfl)] at hiff1
    refine ⟨⟨hiff1.trans h.iff1, hiff2.trans h.iff2⟩, ?_⟩
    refine m.pending_step.trans ?_
    cases haction : m.action with
    | nmi => exact absurd haction hnmi
    | service byte => exact absurd haction (hquiet byte)
    | idle => rfl
    | run => rfl
  | interrupt byte => exact ⟨⟨h.iff1, h.iff2⟩, rfl⟩
  | nmi => exact ⟨⟨h.iff1, h.iff2⟩, rfl⟩

/-- So does every run of such signals. -/
theorem InHandler.after (h : m.InHandler enable) (signals : List Signal)
    (hinside : Each StaysInside m signals) :
    (after m signals).InHandler enable ∧
    (after m signals).pending = newest m.pending signals := by
  induction signals generalizing m with
  | nil => exact ⟨h, rfl⟩
  | cons signal signals ih =>
    obtain ⟨hfirst, hrest⟩ := hinside
    obtain ⟨hnext, hpending⟩ := h.perform hfirst
    obtain ⟨hafter, hnewest⟩ := ih hnext hrest
    refine ⟨hafter, hnewest.trans ?_⟩
    rw [hpending]
    rfl

/-! ## After the handler -/

/-- Both flip-flops show what was saved. -/
structure Restored (enable : Bool) (m : Machine μ δ) : Prop where
  iff1 : m.iff1 = enable
  iff2 : m.iff2 = enable

theorem InHandler.retn (h : m.InHandler enable) (hretn : m.executed? = some .retn) :
    m.step.state.Restored enable := by
  have hnmi : m.action ≠ .nmi := by
    intro haction
    unfold executed? at hretn
    rw [haction] at hretn
    cases hretn
  obtain ⟨hiff2, hiff1⟩ := flipFlops_step hnmi h.servicesNothing
    (by rw [hretn]; decide) (by rw [hretn]; decide)
  rw [if_pos hretn] at hiff1
  exact ⟨hiff1.trans h.iff2, hiff2.trans h.iff2⟩

/-- What has been restored stays until a request is serviced. -/
theorem Restored.perform (h : m.Restored enable) {signal : Signal}
    (hundisturbed : m.Undisturbed signal) (hquiet : m.ServicesNothing signal) :
    (perform m signal).Restored enable := by
  cases signal with
  | step =>
    obtain ⟨hnmi, hei, hdi⟩ := hundisturbed rfl
    obtain ⟨hiff2, hiff1⟩ := flipFlops_step hnmi (hquiet rfl) hei hdi
    refine ⟨hiff1.trans ?_, hiff2.trans h.iff2⟩
    -- another RETN copies the same value once more
    split
    next => exact h.iff2
    next => exact h.iff1
  | interrupt byte => exact ⟨h.iff1, h.iff2⟩
  | nmi => exact ⟨h.iff1, h.iff2⟩

/-- **The handler of a non-maskable interrupt restores the enable.** From the
step that delivers the interrupt, in every run without EI, DI and another such
delivery: until the first RETN interrupts are shut off, what they were before is
saved, no request is serviced, and the newest stays in the latch; the RETN then
restores the saved value, which holds until a request is serviced. -/
theorem enable_restored_by_retn (m : Machine μ δ) (hnmi : m.nmiPending = true)
    (signals : List Signal) (hinside : Each StaysInside m.step.state signals) :
    let s := Operable.after m.step.state signals
    m.step = ⟨m.serviceNmi, .ok Cycles.nmi⟩ ∧
    s.iff1 = false ∧
    s.iff2 = m.iff1 ∧
    (∀ byte, s.action ≠ .service byte) ∧
    s.pending = newest m.pending signals ∧
    (s.executed? = some .retn →
      ∀ later, Each (fun t signal => t.Undisturbed signal ∧ t.ServicesNothing signal)
          s.step.state later →
        (Operable.after s.step.state later).iff1 = m.iff1) := by
  intro s
  have haction : m.action = .nmi := m.action_eq_nmi_iff.mpr hnmi
  have hdelivered := control_step_of_nmi haction
  have hentry : m.step.state.InHandler m.iff1 :=
    ⟨congrArg Control.iff1 hdelivered, congrArg Control.iff2 hdelivered⟩
  have hlatched : m.step.state.pending = m.pending := congrArg Control.pending hdelivered
  obtain ⟨hhandler, hpending⟩ := hentry.after signals hinside
  rw [hlatched] at hpending
  refine ⟨step_of_nmi haction, hhandler.iff1, hhandler.iff2, hhandler.servicesNothing,
    hpending, ?_⟩
  intro hretn later hlater
  have hrestored := after_keeps (I := Restored m.iff1)
    (fun _ _ h hp => h.perform hp.1 hp.2) later _ (hhandler.retn hretn) hlater
  exact hrestored.iff1

/-- A Z80 that lets interrupts through and has a request and a non-maskable one
pending. The handler at 0x66 reads IFF2, turns to interrupt mode two and
returns. -/
def bothPending : Machine Empty (Recorder Byte Byte) :=
  Operable.after
    (new (.ofList ([0xfb] ++ List.replicate 101 0 ++ [0xed, 0x57, 0xed, 0x5e, 0xed, 0x45])) 0)
    [Signal.step, .interrupt 0x10, .nmi]

/-- Its handler up to the RETN, with requests on the way. -/
def handlerRun : List Signal := [.step, .interrupt 0x20, .step, .interrupt 0x30]

/-- The request that comes last in the handler is the one that waits, and the
RETN lets it through. -/
theorem enable_restored_by_retn_waiting :
    bothPending.nmiPending = true ∧
    Each StaysInside bothPending.step.state handlerRun ∧
    (Operable.after bothPending.step.state handlerRun).iff1 = false ∧
    (Operable.after bothPending.step.state handlerRun).pending = some 0x30 ∧
    (Operable.after bothPending.step.state handlerRun).executed? = some .retn ∧
    (Operable.after bothPending.step.state handlerRun).step.state.iff1 = true := by
  have hnmi : bothPending.nmiPending = true := by decide +kernel
  have hinside : Each StaysInside bothPending.step.state handlerRun := by decide +kernel
  have hretn : (Operable.after bothPending.step.state handlerRun).executed? = some .retn := by
    decide +kernel
  obtain ⟨_, hiff1, _, _, hpending, hrestored⟩ :=
    enable_restored_by_retn bothPending hnmi handlerRun hinside
  have henabled : bothPending.iff1 = true := by decide +kernel
  have hback := hrestored hretn [] trivial
  rw [after_nil, henabled] at hback
  exact ⟨hnmi, hinside, hiff1, hpending, hretn, hback⟩

end Retrocore.Z80.Machine
