import Retrocore.Proofs.Compatible.Execute
import Retrocore.Proofs.Compatible.Overheard

/-!
# The 8080 and the Z80 in lockstep

From corresponding states, an 8080 and a Z80 that run the same program stay in
corresponding states for as long as every step executes a common opcode, whether
the opcode stands at the program counter or is supplied by an interrupting
device, and whatever is requested of both in between. Their observers hear the
same requests in the same order, and the same steps fail.

`step_agree` is the step, `after_agree` the run.
-/

namespace Retrocore.Compatible

variable {μ δ : Type} {m : I8080.Machine μ δ} {z : Z80.Machine μ δ}

/-! ## What comes next -/

/-- Both take the same decision about what to do next. -/
theorem action_agree (h : Agree m z) :
    z.action = match m.action with
      | .service opcode => .service opcode
      | .idle => .idle
      | .run => .run := by
  unfold Z80.Machine.action I8080.Machine.action
  rw [h.noNmi, h.enabled, h.pending, h.halted]
  cases z.iff1 <;> cases z.pending <;> cases z.halted <;> rfl

/-- A request is latched alike. -/
theorem interrupt_agree (h : Agree m z) (byte : Byte) :
    Agree (m.interrupt byte) (z.interrupt byte) :=
  { h with pending := rfl }

/-- Listening in on the observers of both keeps the agreement. -/
theorem overheard_agree (h : Agree m z) : Agree m.overheard z.overheard :=
  { h with ports := congrArg Ports.overheard h.ports }

variable [Mapper μ Byte]

theorem advance_agree (h : Agree m z) (cells : Nat) :
    Agree (m.advance cells) (z.advance cells) := by
  rw [m.advance_of_quiet h.quiet, z.advance_of_quiet h.quiet', h.regs.pc]
  exact h.jump _

theorem stream_agree (h : Agree m z) :
    m.memory.stream m.regs.pc = z.memory.stream z.regs.pc := by
  rw [h.memory, h.regs.pc]

/-- The opcode that the next step executes, if it is not spent on waiting. -/
def upcoming (m : I8080.Machine μ δ) : Option Byte :=
  match m.action with
  | .service opcode => some opcode
  | .idle => none
  | .run => some (m.memory.value m.regs.pc)

/-- The next step does what both processors do: it waits, or it executes a
common opcode. -/
def Shared (m : I8080.Machine μ δ) : Prop := ∀ opcode ∈ upcoming m, Common opcode

instance : DecidablePred (Shared (μ := μ) (δ := δ)) := fun m =>
  inferInstanceAs (Decidable (∀ opcode ∈ upcoming m, Common opcode))

/-! ## One step -/

variable [Observer δ Byte Byte]

/-- Both run the instruction at the program counter. -/
theorem run_agree (h : Agree m z) (hm : m.action = .run)
    (hc : Common (m.memory.value m.regs.pc)) : AgreeAfter m.step z.step := by
  have hz := action_agree h
  rw [hm] at hz
  obtain ⟨d, hd, hinstruction, hlength⟩ :=
    decode_agree (m.memory.stream_zero m.regs.pc) hc
  rw [← m.memory.stream_zero] at hinstruction hlength
  rw [stream_agree h] at hd
  have hcells : m.fetched.length = d.length := hlength.symm
  unfold I8080.Machine.step Z80.Machine.step
  simp only [hm, hz, Z80.Machine.fetched, hd]
  refine AgreeAfter.plus ?_ _
  rw [hcells]
  exact execute_agree ((advance_agree h _).refresh _) hinstruction

/-- Both service an interrupt by running the instruction that the device
supplies. -/
theorem service_agree (h : Agree m z) {opcode : Byte}
    (hm : m.action = .service opcode) (hc : Common opcode) :
    AgreeAfter m.step z.step := by
  have hz := action_agree h
  rw [hm] at hz
  have hfirst : Stream.cons opcode (m.memory.stream m.regs.pc) 0 = opcode := rfl
  obtain ⟨d, hd, hinstruction, hlength⟩ := decode_agree hfirst hc
  rw [Stream.drop_cons] at hinstruction hlength
  rw [stream_agree h] at hd
  -- the supplied opcode itself is not fetched from memory
  have hcells : (I8080.decodeOpcode opcode (m.memory.stream m.regs.pc)).2 =
      d.length - 1 := by
    rw [hlength, Nat.add_sub_cancel_left]
  have hquiet : Agree { m with inte := false, halted := false, pending := none }
      { z with
        iff1 := false, iff2 := false, mode := .zero, halted := false
        pending := none } :=
    { h with halted := rfl, pending := rfl, enabled := rfl, mode := rfl }
  unfold I8080.Machine.step Z80.Machine.step
  simp only [hm, hz, I8080.Machine.service, Z80.Machine.service,
    Z80.Machine.supplied, hd, h.mode]
  refine AgreeAfter.costing ?_ _
  rw [hcells]
  exact execute_agree ((advance_agree hquiet _).refresh _) hinstruction

/-- Both wait. -/
theorem idle_agree (h : Agree m z) (hm : m.action = .idle) :
    AgreeAfter m.step z.step := by
  have hz := action_agree h
  rw [hm] at hz
  unfold I8080.Machine.step Z80.Machine.step
  simp only [hm, hz]
  exact .ok (h.refresh 1) _ _

/-- One step of each, from corresponding states. -/
theorem step_agree (h : Agree m z) (hs : Shared m) : AgreeAfter m.step z.step := by
  unfold Shared upcoming at hs
  cases hm : m.action with
  | service opcode =>
    rw [hm] at hs
    exact service_agree h hm (hs opcode rfl)
  | idle => exact idle_agree h hm
  | run =>
    rw [hm] at hs
    exact run_agree h hm (hs _ rfl)

/-! ## Runs -/

/-- One call of either kind. -/
theorem call_agree (h : Agree m z) {c : Call} (hs : c = .step → Shared m) :
    Agree (Core.call m c) (Core.call z c) ∧
      Core.callFault? m c = Core.callFault? z c := by
  cases c with
  | step =>
    obtain ⟨hstates, hfaults⟩ := step_agree h (hs rfl)
    exact ⟨hstates, hfaults⟩
  | interrupt byte => exact ⟨interrupt_agree h byte, rfl⟩

/-- A run of any length. -/
theorem after_agree (h : Agree m z) (calls : List Call)
    (hs : Core.StepsWithin Shared m calls) :
    Agree (Core.after m calls) (Core.after z calls) ∧
    Core.faults m calls = Core.faults z calls := by
  induction calls generalizing m z with
  | nil => exact ⟨h, rfl⟩
  | cons c cs ih =>
    obtain ⟨hfirst, hrest⟩ := hs
    obtain ⟨hstates, hfault⟩ := call_agree h hfirst
    obtain ⟨hafter, hfaults⟩ := ih hstates hrest
    refine ⟨hafter, ?_⟩
    unfold Core.faults
    rw [hfault, hfaults]

/-- **Lockstep.** A run whose steps execute common opcodes, or wait, keeps the
machines in corresponding states: call by call they fail alike, and at the end
every observer is in the same state and has heard the same requests, in the same
order. -/
theorem lockstep (h : Agree m z) (calls : List Call)
    (hs : Core.StepsWithin Shared m calls) :
    Agree (Core.after m calls) (Core.after z calls) ∧
    Core.faults m calls = Core.faults z calls ∧
    (Core.after m.overheard calls).ports.heard =
    (Core.after z.overheard calls).ports.heard := by
  obtain ⟨hstates, hfaults⟩ := after_agree h calls hs
  -- the same run once more, with somebody listening in on both machines
  rw [← m.unheard_overheard] at hs
  have hoverheard := I8080.Machine.stepsWithin_unheard m.overheard calls hs
  have hboth := (after_agree (overheard_agree h) calls hoverheard).1
  exact ⟨hstates, hfaults, congrArg Ports.heard hboth.ports⟩

/-- An 8080 about to set up its stack, let interrupts through, put out a byte,
ask for one from a port that is refused, and add; the device behind the ports
notes what it hears. -/
def talkative : I8080.Machine Empty (Recorder Byte Byte) :=
  I8080.Machine.connect
    (.new (.ofList [0x31, 0x18, 0x00, 0xfb, 0x3e, 0x7f, 0xd3, 0x05, 0xdb, 0x07,
      0xc6, 0x81, 0xda, 0x10, 0x00, 0x76, 0xc9, 0x00, 0x00, 0x00, 0x00, 0x00,
      0x00, 0x00]) 0)
    { answers := [(5, 1)], refused := [7] }

/-- Interrupted by a restart after the second instruction, and once more while
it waits. -/
theorem lockstep_talkative :
    let calls :=
      [.step, .step, .interrupt 0xd7, .step, .step, .interrupt 0xfb, .step,
        .step, .step, .step, .step]
    Agree (Core.after talkative calls) (Core.after (twin talkative) calls) ∧
    Core.faults talkative calls = Core.faults (twin talkative) calls ∧
    (Core.after talkative.overheard calls).ports.heard =
      (Core.after (twin talkative).overheard calls).ports.heard :=
  lockstep (agree_twin rfl) _ (by decide +kernel)

end Retrocore.Compatible
