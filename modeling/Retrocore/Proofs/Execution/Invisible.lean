import Retrocore.I8080.Step
import Retrocore.Proofs.Execution.InStep
import Retrocore.Proofs.Execution.Lasting

/-!
# Debugging is invisible to the program

The elementary actions of a driver keep it in step with the free run of its
core, so every sequence of ticks, transitions and edits of the breakpoints does
(`calls_free`): whatever the debugger did, the calls on the core are those of
the free run, up to the first step that failed or the first time the core could
not run.
-/

namespace Retrocore.Execution

variable {κ γ ι ω : Type} [Core κ] [Monitor ω κ Happening]

/-- A remark is no call on the core. -/
theorem Happening.call?_of_isRemark {what : Happening} (h : what.isRemark = true) :
    what.call? = none := by
  cases what with
  | stepped fault? => cases h
  | interrupted byte => cases h
  | _ => rfl

/-- However a driver is driven, it stays in step. Where a tick ends early, it is
after the core could not run, and from then on nothing counts. -/
theorem InStep.lasting {config : Config} {start : FreeRun κ} (hpos : 0 < config.cyclesPerTick) :
    Driver.Lasting (InStep config start : Driver κ γ ι (Chronicle ω) → Prop) where
  frame h hcore hmonitor hconfig htick _ :=
    h.frame hcore htick hconfig (congrArg Chronicle.log hmonitor)
  remark h hwhat := h.tell (Happening.call?_of_isRemark hwhat)
  step h hresting := h.stepCore fun _ => hresting (h.same ▸ hpos)
  endTick h hspent := h.endTick hpos fun _ => of_decide_eq_true hspent
  stuck h := h.tell rfl
  endStuck {d} h := (h.tell rfl).endTick hpos fun hfine =>
    absurd hfine d.not_allFine_tested

variable [Input ι] [Governor γ]

/-- **Debugging is invisible to the program.** Whatever is done to a new driver,
with any governor, input and monitor and any core: the calls it has made on the
core are those in its chronicle, and up to the first failure of a step and the
first time the core could not run, they are the first calls of the core's free
run. -/
theorem calls_free (core : κ) (governor : γ) (input : ι) (monitor : ω)
    (config : Config) (hpos : 0 < config.cyclesPerTick) (ops : List Driver.Op) :
    let chronicle : Chronicle ω := { inner := monitor }
    let d := (Driver.new core governor input chronicle config).applyAll ops
    d.core = Core.after core (callsOf d.log) ∧
    ∃ k, callsOf (fineLog d.log) = FreeRun.calls config { core } k := by
  intro chronicle d
  have hnew := InStep.new core governor input monitor config
  have hrests : Driver.Rests (InStep config { core }) d :=
    (InStep.lasting hpos).applyAll ⟨hnew, fun _ => hpos⟩ ops
  obtain ⟨k, hcalls, _⟩ := hrests.holds.follows
  exact ⟨hrests.holds.replays, k, hcalls⟩

/-- An 8080 whose interrupts call a handler at 0x10. The user runs into a
breakpoint there, goes on, pauses and resumes, and takes the breakpoint away
after running into it again. -/
theorem calls_free_handler :
    let core : I8080.Machine Empty (Recorder Byte Byte) :=
      I8080.Machine.start (.new (.ofList [0x31, 0x18, 0x00, 0xfb, 0x04, 0xc3,
        0x04, 0x00, 0x00, 0x00, 0x00, 0x00, 0x00, 0x00, 0x00, 0x00, 0x0c, 0xfb,
        0xc9, 0x00, 0x00, 0x00, 0x00, 0x00]) 0)
    let config : Config :=
      { cyclesPerTick := 40, interruptByte := some 0xd7, debugMode := true }
    let ops : List Driver.Op :=
      [.edit { breakpoints := [.ofAddress 0x10], debugMode := true },
        .perform, .perform, .transition .continue, .perform,
        .transition .togglePause, .transition .togglePause, .performWithin 2,
        .edit { debugMode := true }, .perform]
    let chronicle : Chronicle Unit := { inner := () }
    let d := (Driver.new core () () chronicle config).applyAll ops
    d.core = Core.after core (callsOf d.log) ∧
    ∃ k, callsOf (fineLog d.log) = FreeRun.calls config { core } k :=
  calls_free _ () () () _ (by decide) _

end Retrocore.Execution
