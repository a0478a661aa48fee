import Retrocore.Proofs.Calls
import Retrocore.Proofs.Frames.Lr35902
import Mathlib.Tactic.Push

/-!
# When the LR35902 lets interrupts through again

Servicing a request shuts interrupts off, so that the handler runs undisturbed
until it turns them on again. It clears `ime` but forgets `imeScheduled`, which
DI clears along with it. An EI that ran just before, while interrupts were let
through already, is then still to land: it lands on the handler's first
instruction, and the handler can be interrupted although it never ran an EI.

`remains_shut_iff` is the exact extent of this: whatever happens after the
service, interrupts stay shut off until an EI or RETI is run, unless such a
stray EI was scheduled and the handler's first instruction can be decoded and is
none of DI, EI and RETI. Behind a mapper that makes something of a read, cells that
mean nothing at first may come to mean something when they are read again; so the
first instruction is the one that is decoded in the end (`RunsFirst`).
-/

namespace Retrocore.Lr35902.Machine

variable {μ : Type} {m : Machine μ}

/-! ## What comes next -/

/-- A request is serviced only while interrupts are let through. -/
theorem ime_of_service {vector : Byte} (hservice : m.action = .service vector) :
    m.ime = true := by
  unfold action at hservice
  split at hservice
  next =>
    split at hservice
    next hime => exact hime
    next => cases hservice
  next =>
    split at hservice
    next => cases hservice
    next => cases hservice

/-- An awake processor that lets no interrupts through runs the next
instruction. -/
theorem action_of_awake (hime : m.ime = false) (hhalted : m.halted = false) :
    m.action = .run := by
  unfold action
  split
  next => rw [hime, if_neg Bool.false_ne_true]
  next => rw [hhalted, if_neg Bool.false_ne_true]

variable [Mapper μ Byte]

/-! ## What a step makes of the latches -/

/-- An instruction runs awake, and a scheduled EI lands before it. -/
theorem control_run (m : Machine μ) (d : Decoded Instruction) :
    (m.run d).state.control =
      d.instruction.controlAfter
        { m.control with ime := m.ime || m.imeScheduled, imeScheduled := false } :=
  control_execute _ d.instruction

/-- Servicing a request leaves a scheduled EI scheduled. -/
theorem control_service (m : Machine μ) (vector : Byte) :
    (m.service vector).control =
      { m.control with ime := false, halted := false, pending := none } :=
  rfl

/-! ## Interrupts stay shut off -/

/-- The instruction that the next step runs. -/
def running? (m : Machine μ) : Option Instruction :=
  match m.action, m.fetched with
  | .run, .ok d => some d.instruction
  | _, _ => none

/-- The next step runs an EI or a RETI. -/
def Enables (m : Machine μ) : Prop :=
  m.running? = some .ei ∨ m.running? = some .reti

instance : DecidablePred (Enables (μ := μ)) := fun m =>
  inferInstanceAs (Decidable (m.running? = some .ei ∨ m.running? = some .reti))

/-- The instruction is the first that can be decoded at the program counter, be it
at once or when cells that mean nothing have been read. -/
inductive RunsFirst : Machine μ → Instruction → Prop
  | now {m : Machine μ} {d : Decoded Instruction} (hd : m.fetched = .ok d) :
    RunsFirst m d.instruction
  | again {m : Machine μ} {u : Undecodable} {i : Instruction} (hu : m.fetched = .error u)
    (h : RunsFirst (m.readAhead u.length) i) : RunsFirst m i

/-- The memory and the program counter are all that matters. -/
theorem RunsFirst.congr {n : Machine μ} {i : Instruction} (h : n.RunsFirst i)
    (hmemory : n.memory = m.memory) (hpc : n.regs.pc = m.regs.pc) : m.RunsFirst i := by
  induction h generalizing m with
  | @now n d hd =>
    refine .now ?_
    unfold fetched at hd ⊢
    rwa [← hmemory, ← hpc]
  | @again n u i hu _ ih =>
    have hu' : m.fetched = .error u := by
      unfold fetched at hu ⊢
      rwa [← hmemory, ← hpc]
    refine .again hu' (ih ?_ hpc)
    show n.memory.afterReads n.regs.pc u.length = m.memory.afterReads m.regs.pc u.length
    rw [hmemory, hpc]

/-- Where reads change nothing, what cannot be decoded at once never can. -/
theorem runsFirst_iff_of_quiet (hquiet : m.memory.Quiet) {i : Instruction} :
    m.RunsFirst i ↔ ∃ d, m.fetched = .ok d ∧ d.instruction = i := by
  constructor
  · intro h
    induction h with
    | now hd => exact ⟨_, hd, rfl⟩
    | @again m u i hu _ ih =>
      have hsame : m.readAhead u.length = m := by
        unfold readAhead
        rw [hquiet.afterReads]
      rw [hsame] at ih
      exact ih hquiet
  · rintro ⟨d, hd, rfl⟩
    exact .now hd

/-- A scheduled EI, if there is one, never lands by itself: nothing can be
decoded where it would land, or an instruction stands there that decides about
interrupts on its own. -/
def Defused (m : Machine μ) : Prop :=
  m.imeScheduled = true → ∀ i, m.RunsFirst i → i = .di ∨ i = .ei ∨ i = .reti

/-- Interrupts are shut off, and nothing is under way that would change this. -/
structure ShutOff (m : Machine μ) : Prop where
  ime : m.ime = false
  defused : m.Defused

/-- What the next step runs, told by the instruction that is decoded. -/
theorem enables_iff (hrun : m.action = .run) {d : Decoded Instruction}
    (hd : m.fetched = .ok d) :
    m.Enables ↔ d.instruction = .ei ∨ d.instruction = .reti := by
  unfold Enables running?
  rw [hrun, hd, Option.some.injEq, Option.some.injEq]

/-- An instruction other than EI and RETI keeps interrupts shut off. -/
theorem shutOff_run (h : m.ShutOff) {d : Decoded Instruction}
    (hd : m.fetched = .ok d) (hei : d.instruction ≠ .ei)
    (hreti : d.instruction ≠ .reti) :
    ({ m with halted := false }.run d).state.ShutOff := by
  have hcontrol := control_run { m with halted := false } d
  have hlatches : ({ m with halted := false }.run d).state.control.ime = false ∧
      ({ m with halted := false }.run d).state.control.imeScheduled = false := by
    rw [hcontrol]
    by_cases hscheduled : m.imeScheduled = true
    · -- an EI would land here, were it not that a DI overrides it
      rcases h.defused hscheduled _ (.now hd) with hdi | hei' | hreti'
      · rw [hdi]
        exact ⟨rfl, rfl⟩
      · exact absurd hei' hei
      · exact absurd hreti' hreti
    · have hland : (m.ime || m.imeScheduled) = false := by
        rw [h.ime, Bool.eq_false_iff.mpr hscheduled]
        rfl
      exact Instruction.controlAfter_quiet hei hreti hland rfl
  obtain ⟨hime, hscheduled⟩ := hlatches
  -- nothing is scheduled any more, so there is nothing left to defuse
  refine ⟨hime, fun hnext => ?_⟩
  have hnone : ({ m with halted := false }.run d).state.imeScheduled = false :=
    hscheduled
  rw [hnone] at hnext
  cases hnext

/-- Every step keeps interrupts shut off, unless it runs an EI or a RETI. -/
theorem shutOff_step (h : m.ShutOff) (hquiet : ¬ m.Enables) :
    m.step.state.ShutOff := by
  cases haction : m.action with
  | service vector =>
    have hime := ime_of_service haction
    rw [h.ime] at hime
    cases hime
  | idle =>
    rw [step_of_idle haction]
    exact h
  | run =>
    cases hfetched : m.fetched with
    | ok d =>
      rw [enables_iff haction hfetched, not_or] at hquiet
      rw [step_of_fetched haction hfetched]
      exact shutOff_run h hfetched hquiet.1 hquiet.2
    | error u =>
      rw [step_of_undecodable haction hfetched]
      -- a scheduled EI stays scheduled, and still cannot land
      refine ⟨h.ime, fun hscheduled i hfirst => h.defused hscheduled i (.again hfetched ?_)⟩
      exact hfirst.congr rfl rfl

/-- So does every request. -/
theorem shutOff_interrupt (h : m.ShutOff) (vector : Byte) :
    (m.interrupt vector).ShutOff :=
  ⟨h.ime, fun hscheduled i hfirst => h.defused hscheduled i (hfirst.congr rfl rfl)⟩

/-- And so does every run of steps and requests without an EI and a RETI. -/
theorem shutOff_after (h : m.ShutOff) (calls : List Call)
    (hquiet : Core.StepsWithin (fun s => ¬ Enables s) m calls) :
    (Core.after m calls).ShutOff :=
  Core.after_keeps (P := ShutOff) (fun _ hs hq => shutOff_step hs hq)
    (fun _ vector hs => shutOff_interrupt hs vector) calls m h hquiet

/-- Where cells mean nothing, no instruction is run. -/
theorem not_enables_of_undecodable {u : Undecodable} (hu : m.fetched = .error u) :
    ¬ m.Enables := by
  have hnone : m.running? = none := by
    unfold running?
    rw [hu]
    cases m.action <;> rfl
  unfold Enables
  rw [hnone]
  rintro (h | h) <;> cases h

/-- Where an instruction runs first that does not decide about interrupts itself, a
scheduled EI lands with it. -/
theorem RunsFirst.lands {i : Instruction} (h : m.RunsFirst i) (hime : m.ime = false)
    (hhalted : m.halted = false) (hscheduled : m.imeScheduled = true) (hdi : i ≠ .di)
    (hei : i ≠ .ei) (hreti : i ≠ .reti) :
    ∃ calls, Core.StepsWithin (fun s => ¬ Enables s) m calls ∧
      (Core.after m calls).ime = true := by
  induction h with
  | @now m d hd =>
    have hrun := action_of_awake hime hhalted
    have hquiet : ¬ m.Enables := by
      rw [enables_iff hrun hd, not_or]
      exact ⟨hei, hreti⟩
    have hland : (m.ime || m.imeScheduled) = true := by
      rw [hscheduled, Bool.or_true]
    refine ⟨[.step], ⟨fun _ => hquiet, trivial⟩, ?_⟩
    show m.step.state.ime = true
    rw [step_of_fetched hrun hd]
    show ({ m with halted := false }.run d).state.control.ime = true
    rw [control_run]
    exact Instruction.ime_controlAfter hdi hland
  | @again m u i hu _ ih =>
    -- the decode fails once, which leaves the latches as they are
    have hstep : Core.call m .step = m.readAhead u.length := by
      have hawake : { m with halted := false } = m := by
        rw [← hhalted]
      show m.step.state = _
      rw [step_of_undecodable (action_of_awake hime hhalted) hu, hawake]
    obtain ⟨calls, hwithin, hlanded⟩ := ih hime hhalted hscheduled hdi hei hreti
    refine ⟨.step :: calls, ⟨fun _ => not_enables_of_undecodable hu, ?_⟩, ?_⟩
    · rw [hstep]
      exact hwithin
    · rw [Core.after_cons, hstep]
      exact hlanded

/-! ## After a service -/

/-- **After a request has been serviced**, interrupts stay shut off and no
further request is serviced in any run of steps and requests without an EI and a
RETI, exactly if no EI that ran before the service is left to land in the
handler, with the first instruction that runs there. -/
theorem remains_shut_iff (m : Machine μ) (vector : Byte)
    (hservice : m.action = .service vector) :
    (∀ calls, Core.StepsWithin (fun s => ¬ Enables s) m.step.state calls →
      (Core.after m.step.state calls).ime = false ∧
      ∀ next, (Core.after m.step.state calls).action ≠ .service next) ↔
    (m.imeScheduled = true → ∀ i, m.step.state.RunsFirst i →
      i = .di ∨ i = .ei ∨ i = .reti) := by
  have hcontrol : m.step.state.control =
      { m.control with ime := false, halted := false, pending := none } := by
    rw [step_of_service hservice]
    exact control_service m vector
  have hime : m.step.state.ime = false := congrArg Control.ime hcontrol
  have hhalted : m.step.state.halted = false := congrArg Control.halted hcontrol
  have hscheduled : m.step.state.imeScheduled = m.imeScheduled :=
    congrArg Control.imeScheduled hcontrol
  rw [← hscheduled]
  constructor
  · intro hshut hstray i hfirst
    refine Decidable.byContradiction fun hdecides => ?_
    obtain ⟨hdi, hei, hreti⟩ : i ≠ .di ∧ i ≠ .ei ∧ i ≠ .reti := by
      push Not at hdecides
      exact hdecides
    obtain ⟨calls, hwithin, hon⟩ := hfirst.lands hime hhalted hstray hdi hei hreti
    have hoff := (hshut calls hwithin).1
    rw [hon] at hoff
    cases hoff
  · intro hdefused calls hquiet
    have hshut := shutOff_after ⟨hime, hdefused⟩ calls hquiet
    refine ⟨hshut.ime, fun next hnext => ?_⟩
    have hon := ime_of_service hnext
    rw [hshut.ime] at hon
    cases hon

/-- A new processor about to run EI, NOP and, though it lets interrupts through
by then, EI once more; the handlers are made of NOPs. -/
def redundantEi : Machine Empty :=
  new (.ofList ([0xfb, 0x00, 0xfb] ++ List.replicate 125 0x00))

/-- Requested after the second instruction, an interrupt is serviced with no EI
left to land, and stays the only one. -/
theorem remains_shut_iff_after_nop :
    let m := Core.after redundantEi [.step, .step, .interrupt 0x40]
    (∀ calls, Core.StepsWithin (fun s => ¬ Enables s) m.step.state calls →
      (Core.after m.step.state calls).ime = false ∧
      ∀ next, (Core.after m.step.state calls).action ≠ .service next) ↔
    (m.imeScheduled = true → ∀ i, m.step.state.RunsFirst i →
      i = .di ∨ i = .ei ∨ i = .reti) :=
  remains_shut_iff _ 0x40 (by decide +kernel)

/-- Requested after the redundant EI, it is serviced, its handler runs a NOP,
and another request is serviced in the middle of the handler, without any
further EI or RETI. -/
theorem serviced_in_handler :
    let m := Core.after redundantEi [.step, .step, .step, .interrupt 0x40]
    let calls := [.interrupt 0x48, .step]
    m.action = .service 0x40 ∧
    Core.StepsWithin (fun s => ¬ Enables s) m.step.state calls ∧
    ¬ ((Core.after m.step.state calls).ime = false ∧
      ∀ next, (Core.after m.step.state calls).action ≠ .service next) := by
  intro m calls
  refine ⟨by decide +kernel, by decide +kernel, ?_⟩
  rintro ⟨_, hnone⟩
  exact hnone 0x48 (by decide +kernel)

end Retrocore.Lr35902.Machine
