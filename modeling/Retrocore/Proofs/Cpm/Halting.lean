import Retrocore.Proofs.Cpm.Image
import Retrocore.Proofs.Cpm.Traps
import Retrocore.Proofs.Memory.Propagation

/-!
# Halted programs

Nothing in a session requests an interrupt, so that a processor which halts there
is never woken. The session ends the run of one whose interrupts are off, but
takes one whose interrupts are on for a processor that still waits for something.
`halted_ends_iff` says for both processors and every program what becomes of a
run whose processor is halted: it ends before the next step if the interrupts are
off, and never if they are on.

`Secluded` gathers what this needs to know of a host: as long as it is
undisturbed, that is nothing has been requested and the program counter cannot
leave the memory, it stays so, and a halted processor stays halted.
-/

namespace Retrocore

/-! ## Processors that nobody disturbs -/

namespace I8080.Machine

variable {μ δ : Type} {m : Machine μ δ}

/-- Without a request nothing is serviced. -/
theorem action_of_unasked (h : m.pending = none) :
    m.action = if m.halted then .idle else .run := by
  unfold action
  rw [h]
  cases m.inte <;> rfl

/-- The processor has been started, nothing has been requested, and the memory
fills the address space. -/
structure LeftAlone (m : Machine μ δ) : Prop where
  running : m.stopped = false
  unasked : m.pending = none
  plain : m.memory.Plain

/-- There are cells behind every address, and nobody has stopped the processor. -/
theorem LeftAlone.canRun (h : m.LeftAlone) : m.canRun = true := by
  have hpc : m.regs.pc.toNat < m.memory.size := h.plain.size ▸ m.regs.pc.toNat_lt
  unfold Machine.canRun
  simp [h.running, hpc]

/-- A halted processor that is left alone has nothing to do. -/
theorem LeftAlone.idle (h : m.LeftAlone) (hhalted : m.halted = true) :
    m.action = .idle := by
  rw [action_of_unasked h.unasked, if_pos hhalted]

variable [Mapper μ Byte] [Observer δ Byte Byte]

/-- A step requests no interrupt, so the processor stays left alone. -/
theorem LeftAlone.step (h : m.LeftAlone) : m.step.state.LeftAlone where
  running := m.stopped_step.trans h.running
  unasked := by
    rw [pending_step, action_of_unasked h.unasked]
    cases m.halted <;> exact h.unasked
  plain := m.reaches_step.memory.keeps (fun _ a hplain => hplain.afterRead a)
    (fun _ a v hplain => hplain.write a v) h.plain

/-- HLT halts the 8080 behind itself and asks nothing of the ports. -/
theorem at_hlt (hrun : m.action = .run) (hcell : m.memory.value m.regs.pc = 0x76) :
    m.step = ⟨{ m.advance 1 with halted := true }, .ok 7⟩ ∧ m.request? = none := by
  have hfetched : m.fetched = .root 0x76 .hlt 0 := by
    unfold fetched decode
    rw [m.memory.stream_zero, hcell]
    rfl
  refine ⟨step_of_fetched hrun hfetched, ?_⟩
  unfold request? executed?
  rw [hrun, hfetched]
  rfl

/-- EI lets requests through and goes on. -/
theorem at_ei (hrun : m.action = .run) (hcell : m.memory.value m.regs.pc = 0xfb) :
    m.step = ⟨{ m.advance 1 with inte := true }, .ok 4⟩ ∧ m.request? = none := by
  have hfetched : m.fetched = .root 0xfb .ei 0 := by
    unfold fetched decode
    rw [m.memory.stream_zero, hcell]
    rfl
  refine ⟨step_of_fetched hrun hfetched, ?_⟩
  unfold request? executed?
  rw [hrun, hfetched]
  rfl

end I8080.Machine

namespace Z80.Machine

variable {μ δ : Type} {m : Machine μ δ}

/-- Without a request nothing is serviced. -/
theorem action_of_unasked (h : m.pending = none) (hnmi : m.nmiPending = false) :
    m.action = if m.halted then .idle else .run := by
  unfold action
  rw [h, hnmi]
  cases m.iff1 <;> rfl

/-- The processor has been started, nothing has been requested, and the memory
fills the address space. -/
structure LeftAlone (m : Machine μ δ) : Prop where
  running : m.stopped = false
  unasked : m.pending = none
  unasked_nmi : m.nmiPending = false
  plain : m.memory.Plain

/-- There are cells behind every address, and nobody has stopped the processor. -/
theorem LeftAlone.canRun (h : m.LeftAlone) : m.canRun = true := by
  have hpc : m.regs.pc.toNat < m.memory.size := h.plain.size ▸ m.regs.pc.toNat_lt
  unfold Machine.canRun
  simp [h.running, hpc]

/-- A halted processor that is left alone has nothing to do. -/
theorem LeftAlone.idle (h : m.LeftAlone) (hhalted : m.halted = true) :
    m.action = .idle := by
  rw [action_of_unasked h.unasked h.unasked_nmi, if_pos hhalted]

variable [Mapper μ Byte] [Observer δ Byte Byte]

/-- A step requests no interrupt, so the processor stays left alone. -/
theorem LeftAlone.step (h : m.LeftAlone) : m.step.state.LeftAlone where
  running := m.stopped_step.trans h.running
  unasked := by
    rw [pending_step, action_of_unasked h.unasked h.unasked_nmi]
    cases m.halted <;> exact h.unasked
  unasked_nmi := by
    rw [nmiPending_step, action_of_unasked h.unasked h.unasked_nmi]
    cases m.halted <;> exact h.unasked_nmi
  plain := m.reaches_step.memory.keeps (fun _ a hplain => hplain.afterRead a)
    (fun _ a v hplain => hplain.write a v) h.plain

/-- HALT halts the Z80 behind itself and asks nothing of the ports. -/
theorem at_halt (hrun : m.action = .run) (hcell : m.memory.value m.regs.pc = 0x76) :
    m.step = ⟨{ (m.advance 1).refresh 1 with halted := true }, .ok 4⟩ ∧ m.request? = none := by
  have hfetched : m.fetched = .ok (.root 0x76 .halt 0) := by
    unfold fetched decode
    rw [m.memory.stream_zero, hcell]
    rfl
  have hcost : Cycles.of (.root 0x76 .halt 0) = 4 := by decide +kernel
  constructor
  · rw [step_of_fetched hrun hfetched, hcost]
    rfl
  · unfold request? executed?
    rw [hrun, hfetched]
    rfl

end Z80.Machine

namespace Cpm

/-- A host whose processor is driven by a session and by nobody else. -/
class Secluded (κ : Type) [Core κ] [Host κ] [Attended κ] where
  /-- Nothing has been requested, and the program counter cannot leave the
  memory. -/
  Undisturbed : κ → Prop
  undisturbed_next : ∀ {k : κ}, Undisturbed k → Undisturbed (next k)
  armed : ∀ {k : κ}, Undisturbed k → Attended.Armed k
  canRun : ∀ {k : κ}, Undisturbed k → Core.canRun k = true
  /-- A halted processor does nothing for four cycles. -/
  idle : ∀ {k : κ}, Undisturbed k → Core.isHalted k = true →
    (Core.step k).result = .ok 4 ∧ Attended.request? k = none
  /-- It stays halted, with interrupts as they are. -/
  asleep : ∀ {k : κ}, Undisturbed k → Core.isHalted k = true →
    Core.isHalted (next k) = true ∧ Core.interruptsEnabled (next k) = Core.interruptsEnabled k

instance {μ : Type} [Mapper μ Byte] : Secluded (I8080.Machine μ Traps) where
  Undisturbed m := m.LeftAlone ∧ Attended.Armed m
  undisturbed_next h := by
    obtain ⟨hrunning, hunasked, hplain⟩ := h.1.step
    exact ⟨⟨hrunning, hunasked, hplain⟩, Attended.armed_next h.2⟩
  armed h := h.2
  canRun h := h.1.canRun
  idle {m} h hhalted := by
    have haction := h.1.idle hhalted
    refine ⟨congrArg Ran.result (I8080.Machine.step_of_idle haction), ?_⟩
    show m.executed?.bind _ = none
    simp [I8080.Machine.executed?, haction]
  asleep {m} h hhalted := by
    have hstep : m.step.state = m :=
      congrArg Ran.state (I8080.Machine.step_of_idle (h.1.idle hhalted))
    show m.step.state.halted = true ∧ m.step.state.inte = m.inte
    rw [hstep]
    exact ⟨hhalted, rfl⟩

instance {μ : Type} [Mapper μ Byte] : Secluded (Z80.Machine μ Traps) where
  Undisturbed m := m.LeftAlone ∧ Attended.Armed m
  undisturbed_next h := by
    obtain ⟨hrunning, hunasked, hunaskedNmi, hplain⟩ := h.1.step
    exact ⟨⟨hrunning, hunasked, hunaskedNmi, hplain⟩, Attended.armed_next h.2⟩
  armed h := h.2
  canRun h := h.1.canRun
  idle {m} h hhalted := by
    have haction := h.1.idle hhalted
    refine ⟨congrArg Ran.result (Z80.Machine.step_of_idle haction), ?_⟩
    show m.executed?.bind _ = none
    simp [Z80.Machine.executed?, haction]
  asleep {m} h hhalted := by
    have hstep : m.step.state = m.refresh 1 :=
      congrArg Ran.state (Z80.Machine.step_of_idle (h.1.idle hhalted))
    show m.step.state.halted = true ∧ m.step.state.iff1 = m.iff1
    rw [hstep]
    exact ⟨hhalted, rfl⟩

/-! ## Runs of a halted processor -/

section

variable {κ ω : Type} [Core κ] [Host κ] [Attended κ] [Secluded κ] [Monitor ω κ Happening]
  {s : Session κ ω} {k : Nat}

namespace Session

omit [Attended κ] [Secluded κ] in
/-- With interrupts off the next round ends the run. -/
theorem ends_of_shut (hhalted : Core.isHalted s.core = true)
    (hshut : Core.interruptsEnabled s.core = false) :
    ∃ left : Session κ ω, left.core = Core.stop s.core ∧ left.console = s.console ∧
      left.cycles = s.cycles ∧ ∀ limit, runSteps (limit + 1) s = (left, some (.ok ())) := by
  have hrest : AtRest s.core := .inr ⟨hhalted, hshut⟩
  cases s.round with
  | rest _ hrun hcore hconsole _ hcycles => exact ⟨_, hcore, hconsole, hcycles, hrun⟩
  | broken hawake => exact absurd hrest hawake
  | finish hawake => exact absurd hrest hawake
  | call hawake => exact absurd hrest hawake
  | plain hawake => exact absurd hrest hawake

/-- A step that requests nothing is all that a round does. -/
theorem goes_on_of_unasked (hcore : Secluded.Undisturbed s.core)
    (hable : Core.isHalted s.core = false ∨ Core.interruptsEnabled s.core = true) {n : Nat}
    (hcost : (Core.step s.core).result = .ok n) (hrequest : Attended.request? s.core = none) :
    ∃ s' : Session κ ω, s'.core = next s.core ∧ s'.cycles = s.cycles + n ∧
      ∀ limit, runSteps (limit + 1) s = runSteps limit s' := by
  have hawake : ¬ AtRest s.core := by
    rintro (hstopped | ⟨hhalted, hshut⟩)
    · rw [Secluded.canRun hcore] at hstopped
      cases hstopped
    · obtain hawake | hopen := hable
      · rw [hawake] at hhalted
        cases hhalted
      · rw [hopen] at hshut
        cases hshut
  have hnone : sprungBy s.core = none := by
    rw [Attended.sprungBy_eq (Secluded.armed hcore), hrequest]
    rfl
  exact goes_on_of_ok hawake hcost hnone

/-- With interrupts on the processor idles as long as there is patience. -/
theorem idles_on (hcore : Secluded.Undisturbed s.core) (hhalted : Core.isHalted s.core = true)
    (hopen : Core.interruptsEnabled s.core = true) (n : Nat) :
    (runSteps n s).2 = none ∧ (runSteps n s).1.cycles = s.cycles + 4 * n := by
  induction n generalizing s with
  | zero => exact ⟨rfl, rfl⟩
  | succ n ih =>
    obtain ⟨hcost, hrequest⟩ := Secluded.idle hcore hhalted
    obtain ⟨s', hnext, hcycles, hrun⟩ := goes_on_of_unasked hcore (.inr hopen) hcost hrequest
    obtain ⟨hasleep, hsame⟩ := Secluded.asleep hcore hhalted
    rw [← hnext] at hasleep hsame
    obtain ⟨hgoes, htotal⟩ := ih (hnext ▸ Secluded.undisturbed_next hcore) hasleep
      (hsame.trans hopen)
    rw [hrun]
    exact ⟨hgoes, by rw [htotal, hcycles]; omega⟩

/-- After `k` rounds the processor is halted, and the run has not come to its
end. -/
def HaltedAfter (s : Session κ ω) (k : Nat) : Prop :=
  (s.run k).2 = none ∧ Core.isHalted (s.run k).1.core = true

/-- The run ends there: no further step is made, and nothing goes wrong. -/
def EndsAfter (s : Session κ ω) (k : Nat) : Prop :=
  ∀ n, k < n → (s.run n).2 = some (.ok ()) ∧
    (s.run n).1.core = Core.stop (s.run k).1.core ∧ (s.run n).1.cycles = (s.run k).1.cycles

/-- The run goes on from there without an end, four cycles a step. -/
def IdlesAfter (s : Session κ ω) (k : Nat) : Prop :=
  ∀ n, (s.run (k + n)).2 = none ∧ (s.run (k + n)).1.cycles = (s.run k).1.cycles + 4 * n

omit [Attended κ] [Secluded κ] in
/-- A run of a new session can be cut in two where it has not ended. -/
theorem run_add_of_fresh (hfresh : s.hasRun = false) (hgoes : (s.run k).2 = none) (n : Nat) :
    s.run (k + n) = runSteps n (s.run k).1 := by
  simp only [run_of_fresh hfresh] at hgoes ⊢
  rw [runSteps_add, if_pos hgoes]

omit [Attended κ] [Secluded κ] in
/-- If the session idles for ever, no number of steps makes it end. -/
theorem IdlesAfter.never_ends (hfresh : s.hasRun = false) (h : s.IdlesAfter k) (n : Nat) :
    (s.run n).2 = none := by
  by_cases hlate : k ≤ n
  · obtain ⟨d, rfl⟩ := Nat.exists_eq_add_of_le hlate
    exact (h d).1
  · -- an end would have lasted until now
    obtain ⟨d, rfl⟩ := Nat.exists_eq_add_of_le (Nat.le_of_not_le hlate)
    have hnow := (h 0).1
    rw [Nat.add_zero, run_of_fresh hfresh, runSteps_add] at hnow
    rw [run_of_fresh hfresh]
    by_contra hend
    rw [if_neg hend] at hnow
    exact hend hnow

/-- What becomes of a session whose processor is halted. -/
theorem ends_iff_of_fresh (hfresh : s.hasRun = false)
    (hcore : Secluded.Undisturbed (Core.start s.core)) (h : s.HaltedAfter k) :
    (s.EndsAfter k ↔ Core.interruptsEnabled (s.run k).1.core = false) ∧
      (s.IdlesAfter k ↔ Core.interruptsEnabled (s.run k).1.core = true) := by
  obtain ⟨hgoes, hhalted⟩ := h
  have hrun (n : Nat) := run_add_of_fresh hfresh hgoes n
  have hnot : ¬ (s.EndsAfter k ∧ s.IdlesAfter k) := by
    rintro ⟨hends, hidles⟩
    obtain ⟨hend, _⟩ := hends (k + 1) (Nat.lt_succ_self k)
    rw [(hidles 1).1] at hend
    cases hend
  cases hinterrupts : Core.interruptsEnabled (s.run k).1.core with
  | false =>
    have hends : s.EndsAfter k := by
      obtain ⟨left, hcore, _, hcycles, hleft⟩ := ends_of_shut hhalted hinterrupts
      intro n hn
      obtain ⟨d, rfl⟩ : ∃ d, n = k + (d + 1) := ⟨n - k - 1, by omega⟩
      rw [hrun, hleft]
      exact ⟨rfl, hcore, hcycles⟩
    exact ⟨iff_of_true hends rfl, iff_of_false (fun hidles => hnot ⟨hends, hidles⟩) (by decide)⟩
  | true =>
    have hthere : Secluded.Undisturbed (s.run k).1.core := by
      rw [run_of_fresh hfresh] at hgoes ⊢
      exact runSteps_keeps (I := Secluded.Undisturbed) (fun _ => Secluded.undisturbed_next) k
        s.started hcore hgoes
    have hidles : s.IdlesAfter k := by
      intro n
      rw [hrun]
      exact idles_on hthere hhalted hinterrupts n
    exact ⟨iff_of_false (fun hends => hnot ⟨hends, hidles⟩) (by decide), iff_of_true hidles rfl⟩

/-- With interrupts on a halted processor keeps its session from ending. -/
theorem never_ends_of_open (hfresh : s.hasRun = false)
    (hcore : Secluded.Undisturbed (Core.start s.core)) (h : s.HaltedAfter k)
    (hopen : Core.interruptsEnabled (s.run k).1.core = true) :
    s.HaltedAfter k ∧ ¬ s.EndsAfter k ∧ ∀ n, (s.run n).2 = none := by
  obtain ⟨hends, hidles⟩ := ends_iff_of_fresh hfresh hcore h
  refine ⟨h, fun hend => ?_, (hidles.mpr hopen).never_ends hfresh⟩
  rw [hends.mp hend] at hopen
  cases hopen

end Session

end

/-! ## Programs -/

/-- Behind the traps stands the program, as far as there is room. -/
theorem value_image {μ : Type} [Mapper μ Byte] {program : List Byte} {i : Nat} {a : Word}
    (haddress : a.toNat = 256 + i) (hi : i < program.length) :
    (⟨image program, none⟩ : Memory μ Byte).value a = program[i] := by
  have hroom : i < 65280 := by
    have hlt := a.toNat_lt
    omega
  have hsize : (image program).row.size = 65536 := size_image program
  rw [Memory.value_of_unmapped rfl]
  unfold Cells.read
  rw [haddress, hsize, Nat.mod_eq_of_lt (by omega), Array.getD_eq_getD_getElem?,
    (laidOut_image program).loaded i hi hroom]
  rfl

/-- A new session on the 8080 has nothing requested of its processor. -/
theorem undisturbed_i8080 {μ ω : Type} [Mapper μ Byte] (program : List Byte) (monitor : ω) :
    Secluded.Undisturbed (Core.start (Session.i8080 (μ := μ) program none monitor).core) :=
  ⟨⟨rfl, rfl, ⟨size_image program, rfl⟩⟩, rfl⟩

theorem undisturbed_z80 {μ ω : Type} [Mapper μ Byte] (program : List Byte) (monitor : ω) :
    Secluded.Undisturbed (Core.start (Session.z80 (μ := μ) program none monitor).core) :=
  ⟨⟨rfl, rfl, rfl, ⟨size_image program, rfl⟩⟩, rfl⟩

/-- **A halted program ends just if its interrupts are off**, and else idles for
ever: nothing in a session could wake it. -/
theorem halted_ends_iff {μ ω ω' : Type} [Mapper μ Byte]
    [Monitor ω (I8080.Machine μ Traps) Happening] [Monitor ω' (Z80.Machine μ Traps) Happening]
    (program : List Byte) (monitor : ω) (monitor' : ω') (k : Nat) :
    (let s : Session (I8080.Machine μ Traps) ω := .i8080 program none monitor
     s.HaltedAfter k →
      (s.EndsAfter k ↔ (s.run k).1.core.inte = false) ∧
        (s.IdlesAfter k ↔ (s.run k).1.core.inte = true)) ∧
    (let s : Session (Z80.Machine μ Traps) ω' := .z80 program none monitor'
     s.HaltedAfter k →
      (s.EndsAfter k ↔ (s.run k).1.core.iff1 = false) ∧
        (s.IdlesAfter k ↔ (s.run k).1.core.iff1 = true)) :=
  ⟨fun h => Session.ends_iff_of_fresh rfl (undisturbed_i8080 program monitor) h,
    fun h => Session.ends_iff_of_fresh rfl (undisturbed_z80 program monitor') h⟩

/-! ### Programs that halt at once -/

/-- The session takes from the ports of the 8080 what has been trapped there. -/
theorem next_i8080 {μ : Type} [Mapper μ Byte] (m : I8080.Machine μ Traps) :
    next m = { m.step.state with ports := (Traps.take m.step.state.ports).2 } := rfl

theorem next_z80 {μ : Type} [Mapper μ Byte] (m : Z80.Machine μ Traps) :
    next m = { m.step.state with ports := (Traps.take m.step.state.ports).2 } := rfl

namespace Session

variable {μ ω : Type} [Mapper μ Byte]

section

variable [Monitor ω (I8080.Machine μ Traps) Happening] {s : Session (I8080.Machine μ Traps) ω}

/-- One round at a HLT leaves the processor halted, with INTE as it was. -/
theorem round_hlt (hcore : Secluded.Undisturbed s.core) (hawake : s.core.halted = false)
    (hcell : s.core.memory.value s.core.regs.pc = 0x76) :
    ∃ s' : Session (I8080.Machine μ Traps) ω,
      (∀ limit, runSteps (limit + 1) s = runSteps limit s') ∧
        s'.core.halted = true ∧ s'.core.inte = s.core.inte := by
  have hrun : s.core.action = .run := by
    rw [I8080.Machine.action_of_unasked hcore.1.unasked, hawake]
    rfl
  obtain ⟨hstep, hrequest⟩ := I8080.Machine.at_hlt hrun hcell
  obtain ⟨s', hnext, _, hgoes⟩ :=
    goes_on_of_unasked hcore (.inl hawake) (congrArg Ran.result hstep) hrequest
  refine ⟨s', hgoes, ?_⟩
  rw [hnext, next_i8080, hstep]
  exact ⟨rfl, rfl⟩

/-- One round at an EI leaves it at the next cell, with INTE set. -/
theorem round_ei (hcore : Secluded.Undisturbed s.core) (hawake : s.core.halted = false)
    (hcell : s.core.memory.value s.core.regs.pc = 0xfb) :
    ∃ s' : Session (I8080.Machine μ Traps) ω,
      (∀ limit, runSteps (limit + 1) s = runSteps limit s') ∧ Secluded.Undisturbed s'.core ∧
        s'.core.halted = false ∧ s'.core.inte = true ∧ s'.core.memory = s.core.memory ∧
          s'.core.regs.pc = s.core.regs.pc + 1 := by
  have hrun : s.core.action = .run := by
    rw [I8080.Machine.action_of_unasked hcore.1.unasked, hawake]
    rfl
  obtain ⟨hstep, hrequest⟩ := I8080.Machine.at_ei hrun hcell
  obtain ⟨s', hnext, _, hgoes⟩ :=
    goes_on_of_unasked hcore (.inl hawake) (congrArg Ran.result hstep) hrequest
  refine ⟨s', hgoes, hnext ▸ Secluded.undisturbed_next hcore, ?_⟩
  rw [hnext, next_i8080, hstep]
  exact ⟨hawake, rfl, hcore.1.plain.quiet.afterReads _ 1, rfl⟩

end

/-- One round at a HALT leaves the Z80 halted, with IFF1 as it was. -/
theorem round_halt [Monitor ω (Z80.Machine μ Traps) Happening]
    {s : Session (Z80.Machine μ Traps) ω} (hcore : Secluded.Undisturbed s.core)
    (hawake : s.core.halted = false) (hcell : s.core.memory.value s.core.regs.pc = 0x76) :
    ∃ s' : Session (Z80.Machine μ Traps) ω,
      (∀ limit, runSteps (limit + 1) s = runSteps limit s') ∧
        s'.core.halted = true ∧ s'.core.iff1 = s.core.iff1 := by
  have hrun : s.core.action = .run := by
    rw [Z80.Machine.action_of_unasked hcore.1.unasked hcore.1.unasked_nmi, hawake]
    rfl
  obtain ⟨hstep, hrequest⟩ := Z80.Machine.at_halt hrun hcell
  obtain ⟨s', hnext, _, hgoes⟩ :=
    goes_on_of_unasked hcore (.inl hawake) (congrArg Ran.result hstep) hrequest
  refine ⟨s', hgoes, ?_⟩
  rw [hnext, next_z80, hstep]
  exact ⟨rfl, rfl⟩

end Session

section

variable (program : List Byte)

/-- A program that begins with HLT has the 8080 halted after one step. -/
theorem halted_after_hlt (hlength : 0 < program.length) (hfirst : program[0] = 0x76) :
    let s : Session (I8080.Machine Empty Traps) Unit := .i8080 program none ()
    s.HaltedAfter 1 ∧ (s.run 1).1.core.inte = false := by
  intro s
  obtain ⟨s', hgoes, hhalted, hinte⟩ := Session.round_hlt (s := s.started)
    (undisturbed_i8080 program ()) rfl ((value_image rfl hlength).trans hfirst)
  have hafter : s.run 1 = (s', none) := (Session.run_of_fresh rfl 1).trans (hgoes 0)
  rw [Session.HaltedAfter, hafter]
  exact ⟨⟨rfl, hhalted⟩, hinte⟩

theorem halted_after_halt (hlength : 0 < program.length) (hfirst : program[0] = 0x76) :
    let s : Session (Z80.Machine Empty Traps) Unit := .z80 program none ()
    s.HaltedAfter 1 ∧ (s.run 1).1.core.iff1 = false := by
  intro s
  obtain ⟨s', hgoes, hhalted, hiff1⟩ := Session.round_halt (s := s.started)
    (undisturbed_z80 program ()) rfl ((value_image rfl hlength).trans hfirst)
  have hafter : s.run 1 = (s', none) := (Session.run_of_fresh rfl 1).trans (hgoes 0)
  rw [Session.HaltedAfter, hafter]
  exact ⟨⟨rfl, hhalted⟩, hiff1⟩

/-- EI lets interrupts through before HLT. -/
theorem never_ends_ei_hlt (hlength : 1 < program.length) (hfirst : program[0] = 0xfb)
    (hsecond : program[1] = 0x76) :
    let s : Session (I8080.Machine Empty Traps) Unit := .i8080 program none ()
    s.HaltedAfter 2 ∧ ¬ s.EndsAfter 2 ∧ ∀ n, (s.run n).2 = none := by
  intro s
  have hpos : 0 < program.length := Nat.zero_lt_of_lt hlength
  obtain ⟨s', hgoes, hcore, hawake, hopen, hmemory, hpc⟩ := Session.round_ei (s := s.started)
    (undisturbed_i8080 program ()) rfl ((value_image rfl hpos).trans hfirst)
  have hcell : s'.core.memory.value s'.core.regs.pc = 0x76 := by
    rw [hmemory, hpc]
    exact (value_image rfl hlength).trans hsecond
  obtain ⟨s'', hgoes', hhalted, hinte⟩ := Session.round_hlt hcore hawake hcell
  have hafter : s.run 2 = (s'', none) :=
    (Session.run_of_fresh rfl 2).trans ((hgoes 1).trans (hgoes' 0))
  refine Session.never_ends_of_open rfl (undisturbed_i8080 program ()) ?_ ?_
  · rw [Session.HaltedAfter, hafter]
    exact ⟨rfl, hhalted⟩
  · rw [hafter]
    exact hinte.trans hopen

end

/-- Both processors halt at once, with interrupts off as they are at first. -/
theorem halted_ends_iff_hlt :
    let s : Session (I8080.Machine Empty Traps) Unit := .i8080 [0x76] none ()
    let z : Session (Z80.Machine Empty Traps) Unit := .z80 [0x76] none ()
    (s.HaltedAfter 1 ∧ s.EndsAfter 1) ∧ z.HaltedAfter 1 ∧ z.EndsAfter 1 := by
  intro s z
  obtain ⟨hs, hinte⟩ := halted_after_hlt [0x76] Nat.one_pos rfl
  obtain ⟨hz, hiff1⟩ := halted_after_halt [0x76] Nat.one_pos rfl
  obtain ⟨hi8080, hz80⟩ := halted_ends_iff (μ := Empty) [0x76] () () 1
  exact ⟨⟨hs, (hi8080 hs).1.mpr hinte⟩, hz, (hz80 hz).1.mpr hiff1⟩

/-- A program that lets interrupts through and halts. -/
theorem ei_hlt_never_ends :
    let s : Session (I8080.Machine Empty Traps) Unit := .i8080 [0xfb, 0x76] none ()
    s.HaltedAfter 2 ∧ ¬ s.EndsAfter 2 ∧ ∀ n, (s.run n).2 = none :=
  never_ends_ei_hlt [0xfb, 0x76] Nat.one_lt_two rfl rfl

end Cpm

end Retrocore
