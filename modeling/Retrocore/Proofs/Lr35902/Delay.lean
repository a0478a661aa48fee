import Retrocore.Proofs.Lr35902.Delivery

/-!
# The delay of EI on the LR35902

EI only schedules that interrupts are let through. That takes effect when the
next instruction is run, just before it, so that this instruction still runs
undisturbed, and a DI there takes it back. `ei_delayed` says of every run that
starts with interrupts shut off and nothing scheduled that they are let through
only after a RETI, or after an EI that was followed by something other than DI;
and what lies between the EI and the next instruction, failed decodes and
requests, changes nothing but the latch of requests and, behind a mapper that makes
something of a read, the memory.

The history of a run is the list of the instructions executed in it. `Shut past`
ties the two latches to it: for as long as the history does not let interrupts
through (`Opens`), `ime` is clear, and an EI is scheduled exactly if it was the
last instruction executed.
-/

namespace Retrocore.Lr35902

/-- Instructions that let interrupts through again, executed in this order: a
RETI, or an EI and next after it anything but DI. -/
def Opens (past : List Instruction) : Prop :=
  .reti ∈ past ∨ ∃ next, next ≠ .di ∧ [.ei, next] <:+: past

/-- What has been let through once stays in the history. -/
theorem Opens.append {past : List Instruction} (h : Opens past) (more : List Instruction) :
    Opens (past ++ more) := by
  rcases h with hreti | ⟨next, hdi, hei⟩
  · exact .inl (List.mem_append_left _ hreti)
  · exact .inr ⟨next, hdi, hei.trans (List.prefix_append _ _).isInfix⟩

/-- After an EI, everything but DI lets interrupts through. -/
theorem opens_of_getLast? {past : List Instruction} (hei : past.getLast? = some .ei)
    {next : Instruction} (hdi : next ≠ .di) : Opens (past ++ [next]) := by
  obtain ⟨earlier, rfl⟩ := List.getLast?_eq_some_iff.mp hei
  refine .inr ⟨next, hdi, ⟨earlier, [], ?_⟩⟩
  simp

namespace Machine

variable {μ : Type} [Mapper μ Byte] {m : Machine μ} {past : List Instruction}

/-! ## Histories -/

/-- The instruction that a call executes, if it executes one. -/
def executedBy (m : Machine μ) : Call → List Instruction
  | .step => m.running?.toList
  | .interrupt _ => []

/-- The instructions that a run executes, in order. -/
def executed (m : Machine μ) : List Call → List Instruction
  | [] => []
  | c :: cs => m.executedBy c ++ executed (Core.call m c) cs

/-- An instruction that is run has been decoded. -/
theorem running?_eq_some_iff {i : Instruction} :
    m.running? = some i ↔ m.action = .run ∧ ∃ d, m.fetched = .ok d ∧ d.instruction = i := by
  unfold running?
  cases m.action with
  | run => cases m.fetched <;> simp
  | service vector => simp
  | idle => simp

/-- A step that executes no instruction, though the processor is awake and lets
no interrupts through, only reads. -/
theorem step_of_not_running (hime : m.ime = false) (hhalted : m.halted = false)
    (hnone : m.running? = none) :
    ∃ memory, m.memory.Looked memory ∧ m.step.state = { m with memory } := by
  have hrun := action_of_awake hime hhalted
  cases hfetched : m.fetched with
  | ok d =>
    have hsome := running?_eq_some_iff.mpr ⟨hrun, d, hfetched, rfl⟩
    rw [hnone] at hsome
    cases hsome
  | error u =>
    rw [step_of_undecodable hrun hfetched]
    refine ⟨_, Memory.Looked.refl.reads m.regs.pc u.length, ?_⟩
    show { m with halted := false }.readAhead u.length = m.readAhead u.length
    rw [← hhalted]

/-- So does a run, except that requests are latched. -/
theorem after_of_not_running (hime : m.ime = false) (hhalted : m.halted = false) :
    ∀ calls, executed m calls = [] → ∃ memory pending, m.memory.Looked memory ∧
      Core.after m calls = { m with memory, pending } := by
  intro calls
  induction calls generalizing m with
  | nil =>
    intro _
    exact ⟨m.memory, m.pending, .refl, rfl⟩
  | cons c cs ih =>
    intro hnone
    obtain ⟨hfirst, hrest⟩ := List.append_eq_nil_iff.mp hnone
    rw [Core.after_cons]
    cases c with
    | step =>
      obtain ⟨looked, hlooked, hstep⟩ :=
        step_of_not_running hime hhalted (Option.toList_eq_nil_iff.mp hfirst)
      have hcall : Core.call m .step = { m with memory := looked } := hstep
      rw [hcall] at hrest ⊢
      obtain ⟨memory, pending, hmemory, hafter⟩ :=
        ih (m := { m with memory := looked }) hime hhalted hrest
      exact ⟨memory, pending, hlooked.trans hmemory, hafter⟩
    | interrupt vector =>
      have hlatched : Core.call m (.interrupt vector) = { m with pending := some vector } := rfl
      rw [hlatched] at hrest ⊢
      exact ih (m := { m with pending := some vector }) hime hhalted hrest

/-! ## Histories and latches -/

/-- Interrupts are shut off, and an EI is scheduled exactly if it was the last
instruction executed. -/
structure Shut (past : List Instruction) (m : Machine μ) : Prop where
  ime : m.ime = false
  scheduled_iff : m.imeScheduled = true ↔ past.getLast? = some .ei

/-- An instruction that does not let interrupts through keeps them shut off. -/
theorem Shut.run (h : Shut past m) (d : Decoded Instruction)
    (hquiet : ¬ Opens (past ++ [d.instruction])) :
    Shut (past ++ [d.instruction]) (m.run d).state := by
  have hreti : d.instruction ≠ .reti := fun hreti => hquiet (.inl (by simp [hreti]))
  have hlatches : (m.run d).state.control = d.instruction.controlAfter
      { m.control with ime := m.imeScheduled, imeScheduled := false } := by
    rw [control_run, h.ime, Bool.false_or]
  have hime := congrArg Control.ime hlatches
  have hscheduled := congrArg Control.imeScheduled hlatches
  -- an EI that was scheduled lands now; only a DI takes it back
  have hland : d.instruction ≠ .di → m.imeScheduled = false := by
    intro hdi
    rw [← Bool.not_eq_true, h.scheduled_iff]
    exact fun hlast => hquiet (opens_of_getLast? hlast hdi)
  constructor
  · refine hime.trans ?_
    cases hi : d.instruction with
    | reti => exact absurd hi hreti
    | di => rfl
    | _ => exact hland (by rw [hi]; exact Instruction.noConfusion)
  · rw [show (m.run d).state.imeScheduled = _ from hscheduled, List.getLast?_concat]
    cases hi : d.instruction with
    | ei => exact iff_of_true rfl rfl
    | _ => exact iff_of_false Bool.false_ne_true (by simp)

/-- A step keeps them shut off until the history lets them through. -/
theorem Shut.step (h : Shut past m) (hquiet : ¬ Opens (past ++ m.running?.toList)) :
    Shut (past ++ m.running?.toList) m.step.state := by
  cases haction : m.action with
  | service vector =>
    have hime := ime_of_service haction
    rw [h.ime] at hime
    cases hime
  | idle =>
    have hnone : m.running? = none := by
      unfold running?
      rw [haction]
    rw [hnone, step_of_idle haction, Option.toList_none, List.append_nil]
    exact h
  | run =>
    cases hfetched : m.fetched with
    | ok d =>
      have hsome := running?_eq_some_iff.mpr ⟨haction, d, hfetched, rfl⟩
      rw [hsome] at hquiet ⊢
      rw [step_of_fetched haction hfetched]
      exact Shut.run (m := { m with halted := false }) ⟨h.ime, h.scheduled_iff⟩ d hquiet
    | error u =>
      have hnone : m.running? = none := by
        unfold running?
        rw [haction, hfetched]
      rw [hnone, step_of_undecodable haction hfetched, Option.toList_none, List.append_nil]
      exact ⟨h.ime, h.scheduled_iff⟩

/-- And so does a run. -/
theorem Shut.after (h : Shut past m) (calls : List Call)
    (hquiet : ¬ Opens (past ++ executed m calls)) :
    Shut (past ++ executed m calls) (Core.after m calls) := by
  induction calls generalizing m past with
  | nil =>
    rw [executed, List.append_nil]
    exact h
  | cons c cs ih =>
    rw [executed, ← List.append_assoc] at hquiet ⊢
    have hfirst : ¬ Opens (past ++ m.executedBy c) := fun hopens => hquiet (hopens.append _)
    rw [Core.after_cons]
    refine ih ?_ hquiet
    cases c with
    | step => exact h.step hfirst
    | interrupt vector =>
      rw [executedBy, List.append_nil]
      exact ⟨h.ime, h.scheduled_iff⟩

/-! ## The delay -/

/-- Whether interrupts are let through while the next instruction runs. An EI
that ran just before has landed by then. -/
def letsThrough (m : Machine μ) : Bool := m.ime || m.imeScheduled

/-- The machine with another memory. -/
def patched (m : Machine μ) (memory : Memory μ Byte) : Machine μ := { m with memory }

/-- The EI that the machine is about to run takes effect with the instruction
next after it. -/
structure DelaysEi (m : Machine μ) : Prop where
  /-- Until an instruction is executed, nothing is serviced, in the next step or
  later, and nothing changes but the latch of requests and, as far as reads change
  it, the memory: decodes that fail neither lose the EI nor use it up. -/
  waits : ∀ calls, executed m.step.state calls = [] →
    let waiting : Machine μ := Core.after m.step.state calls
    waiting = { m.step.state with pending := waiting.pending, memory := waiting.memory } ∧
      m.step.state.memory.Looked waiting.memory ∧ waiting.ime = false ∧ waiting.imeScheduled = true ∧
      ∀ vector, waiting.action ≠ .service vector
  /-- The next instruction, whatever has been stored in the memory meanwhile, lets
  interrupts through unless it is a DI. -/
  lands : ∀ calls, executed m.step.state calls = [] → ∀ memory next,
    let waiting := patched (Core.after m.step.state calls) memory
    waiting.running? = some next → (waiting.step.state.ime = true ↔ next ≠ .di)
  /-- If it is one, they stay shut off until another EI or RETI. -/
  overridden : ∀ calls, executed m.step.state calls = [] → ∀ memory,
    let waiting := patched (Core.after m.step.state calls) memory
    waiting.running? = some .di → ∀ later,
      Core.StepsWithin (fun s => ¬ Enables s) waiting.step.state later →
        (Core.after waiting.step.state later).ime = false ∧
        ∀ vector, (Core.after waiting.step.state later).action ≠ .service vector

/-- What an EI makes of the latches: it leaves interrupts as they are while it
runs. -/
theorem control_step_of_ei (hei : m.running? = some .ei) :
    m.step.state.control =
      { m.control with ime := m.letsThrough, imeScheduled := true, halted := false } := by
  obtain ⟨hrun, d, hfetched, hinstruction⟩ := running?_eq_some_iff.mp hei
  rw [step_of_fetched hrun hfetched, control_run, hinstruction]
  rfl

theorem ime_step_of_ei (hei : m.running? = some .ei) : m.step.state.ime = m.letsThrough :=
  congrArg Control.ime (control_step_of_ei hei)

/-- What the instruction next after it does to them. -/
theorem ime_step_of_scheduled (hime : m.ime = false) (hscheduled : m.imeScheduled = true)
    {next : Instruction} (hnext : m.running? = some next) :
    m.step.state.ime = true ↔ next ≠ .di := by
  obtain ⟨hrun, d, hfetched, rfl⟩ := running?_eq_some_iff.mp hnext
  have hlatches : m.step.state.control = d.instruction.controlAfter
      { m.control with ime := true, imeScheduled := false, halted := false } := by
    rw [step_of_fetched hrun hfetched, control_run]
    show d.instruction.controlAfter
      { m.control with ime := m.ime || m.imeScheduled, imeScheduled := false, halted := false } = _
    rw [hime, hscheduled, Bool.false_or]
  have hstep : m.step.state.ime = _ := congrArg Control.ime hlatches
  rw [hstep]
  cases d.instruction with
  | di => exact iff_of_false Bool.false_ne_true (not_not_intro rfl)
  | _ => exact iff_of_true rfl Instruction.noConfusion

/-- A DI leaves nothing scheduled. -/
theorem shutOff_step_of_di (hdi : m.running? = some .di) : m.step.state.ShutOff := by
  obtain ⟨hrun, d, hfetched, hinstruction⟩ := running?_eq_some_iff.mp hdi
  have hlatches : m.step.state.control =
      { m.control with ime := false, imeScheduled := false, halted := false } := by
    rw [step_of_fetched hrun hfetched, control_run, hinstruction]
    rfl
  have hscheduled : m.step.state.imeScheduled = false := congrArg Control.imeScheduled hlatches
  refine ⟨congrArg Control.ime hlatches, fun hnext => ?_⟩
  rw [hscheduled] at hnext
  cases hnext

omit [Mapper μ Byte] in
theorem action_ne_service (hime : m.ime = false) (vector : Byte) : m.action ≠ .service vector := by
  intro hservice
  have hon := ime_of_service hservice
  rw [hime] at hon
  cases hon

theorem delaysEi (hei : m.running? = some .ei) (hshut : m.letsThrough = false) : m.DelaysEi := by
  have hlatches := control_step_of_ei hei
  have hime : m.step.state.ime = false := (ime_step_of_ei hei).trans hshut
  have hscheduled : m.step.state.imeScheduled = true := congrArg Control.imeScheduled hlatches
  have hhalted : m.step.state.halted = false := congrArg Control.halted hlatches
  have hsame := after_of_not_running hime hhalted
  refine ⟨fun calls hnone => ?_, fun calls hnone memory next => ?_, fun calls hnone memory => ?_⟩
  · obtain ⟨looked, pending, hlooked, hafter⟩ := hsame calls hnone
    intro waiting
    have hwaiting : waiting = { m.step.state with memory := looked, pending } := hafter
    rw [hwaiting]
    exact ⟨rfl, hlooked, hime, hscheduled, action_ne_service hime⟩
  · obtain ⟨_, _, _, hafter⟩ := hsame calls hnone
    intro waiting hnext
    have hoff : waiting.ime = false := (congrArg Machine.ime hafter).trans hime
    have hon : waiting.imeScheduled = true :=
      (congrArg Machine.imeScheduled hafter).trans hscheduled
    exact ime_step_of_scheduled hoff hon hnext
  · intro waiting hdi later hquiet
    have hafter := shutOff_after (shutOff_step_of_di hdi) later hquiet
    exact ⟨hafter.ime, action_ne_service hafter.ime⟩

/-- **EI is delayed.** From a processor that lets no interrupts through and has
none scheduled, in any run of steps and requests: when a step begins with
interrupts let through, a RETI has been executed, or an EI and next after it
anything but DI. An EI by itself leaves interrupts as it finds them, and one that
finds them shut off takes effect with the instruction next after it. -/
theorem ei_delayed (m : Machine μ) (hime : m.ime = false) (hscheduled : m.imeScheduled = false)
    (calls : List Call) :
    let reached : Machine μ := Core.after m calls
    (reached.ime = true → Opens (executed m calls)) ∧
    (reached.running? = some .ei → reached.step.state.ime = reached.letsThrough ∧
      (reached.letsThrough = false → reached.DelaysEi)) := by
  intro reached
  refine ⟨fun hon => ?_, fun hei => ⟨ime_step_of_ei hei, delaysEi hei⟩⟩
  have hstart : Shut [] m := ⟨hime, iff_of_false (by simp [hscheduled]) (by simp)⟩
  by_cases hopens : Opens (executed m calls)
  · exact hopens
  · have hoff : reached.ime = false := (hstart.after calls hopens).ime
    rw [hoff] at hon
    cases hon

/-- A new processor about to run an EI. Behind it stands a register that counts its
reads, and the next three counts mean nothing. -/
def eiBeforeHole : Machine (Tally Byte) :=
  new ⟨⟨(0xfb :: List.replicate 127 0x00).toArray⟩, some ⟨0x101, 0xea⟩⟩

/-- Requests and failed decodes behind the EI go by without a service, although each
decode changes the memory. When the register is set so that it comes to a NOP,
interrupts are let through after that. -/
theorem ei_delayed_before_hole :
    let m := eiBeforeHole
    let calls := [.interrupt 0x40]
    let waits := [.step, .interrupt 0x48, .step]
    let reached := Core.after m calls
    let waiting := Core.after reached.step.state waits
    let filled := patched waiting (waiting.memory.write 0x101 0xff)
    (m.ime = false ∧ m.imeScheduled = false ∧ reached.running? = some .ei ∧
      reached.letsThrough = false ∧ executed reached.step.state waits = [] ∧
      filled.running? = some .nop) ∧
    waiting.memory.value 0x101 = 0xed ∧
    (waiting.ime = false ∧ ∀ vector, waiting.action ≠ .service vector) ∧
    filled.step.state.ime = true := by
  intro m calls waits reached waiting filled
  have hime : m.ime = false := by decide
  have hscheduled : m.imeScheduled = false := by decide
  have hei : reached.running? = some .ei := by decide +kernel
  have hshut : reached.letsThrough = false := by decide +kernel
  have hnone : executed reached.step.state waits = [] := by decide +kernel
  have hnop : filled.running? = some .nop := by decide +kernel
  have hcount : waiting.memory.value 0x101 = 0xed := by decide +kernel
  have hdelays : reached.DelaysEi := ((ei_delayed m hime hscheduled calls).2 hei).2 hshut
  clear_value reached
  have hlands : filled.step.state.ime = true ↔ Instruction.nop ≠ .di :=
    hdelays.lands waits hnone (waiting.memory.write 0x101 0xff) .nop hnop
  obtain ⟨_, _, hoff, _, hunserviced⟩ := hdelays.waits waits hnone
  exact ⟨⟨hime, hscheduled, hei, hshut, hnone, hnop⟩, hcount, ⟨hoff, hunserviced⟩,
    hlands.mpr (by decide)⟩

end Machine

end Retrocore.Lr35902
