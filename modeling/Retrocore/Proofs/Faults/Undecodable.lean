import Retrocore.Proofs.Operations
import Retrocore.Proofs.Z80.Blocks

/-!
# A failed decode leaves no trace

A step whose cells stand for no instruction reads them and gives up. What it
leaves is the machine as it was, so that the cells can be patched and the step
made again, as often as need be: `failed_decode_leaves_no_trace` says that the
machine is then where the first attempt would have found it. The Z80 alone keeps
count: each attempt has read two opcode bytes, and its refresh register has
advanced by as many. A mapper may take note of the reads, which patching the memory
undoes as well; without one they leave no trace either.

A `Bench` is what the argument needs to know of a machine, and `Bench.Laws` what
it uses; they are the same for all machines.
-/

namespace Retrocore

/-! ## Attempts -/

/-- What is done to a machine that does not get on. -/
inductive Attempt (ν : Type) where
  | step
  /-- The memory is replaced. -/
  | patch (memory : ν)

def Attempt.isStep {ν : Type} : Attempt ν → Bool
  | .step => true
  | .patch _ => false

/-- How many steps are attempted. -/
def attempts {ν : Type} (run : List (Attempt ν)) : Nat := run.countP Attempt.isStep

/-- A machine of type `σ` with a memory of `κ` behind a mapper of type `μ`. -/
class Bench (σ : Type) (μ κ : outParam Type) where
  memory : σ → Memory μ κ
  /-- The machine with another memory. -/
  patch : σ → Memory μ κ → σ
  /-- The next step runs the instruction at the program counter. -/
  Ready : σ → Prop
  /-- The cells there stand for none. -/
  Fails : σ → Undecodable → Prop

namespace Bench

variable {σ μ κ : Type} [Core σ] [Bench σ μ κ]

instance : Operable σ (Attempt (Memory μ κ)) where
  perform m
    | .step => (Core.step m).state
    | .patch memory => patch m memory

/-- No step gets on. -/
def Fruitless (m : σ) : Attempt (Memory μ κ) → Prop
  | .step => ∃ u, Fails m u
  | .patch _ => True

variable [Inhabited κ] [Mapper μ κ]

/-- What a step leaves whose cells stand for nothing: the trace of one attempt, and
a memory that has been read. -/
def GivesUp (trace : σ → Nat → σ) (m : σ) (fault : Fault) : Prop :=
  ∃ looked, (memory m).Looked looked ∧ Core.step m = ⟨patch (trace m 1) looked, .error fault⟩

/-- What the machine is like after a number of failed steps, apart from its
memory. -/
structure Laws (trace : σ → Nat → σ) : Prop where
  gives_up : ∀ {m : σ} {u : Undecodable}, Ready m → Fails m u → GivesUp trace m u.fault
  trace_zero : ∀ m, trace m 0 = m
  trace_trace : ∀ m i j, trace (trace m i) j = trace m (i + j)
  ready_trace : ∀ {m} i, Ready m → Ready (trace m i)
  ready_patch : ∀ {m : σ} memory, Ready m → Ready (patch m memory)
  patch_trace : ∀ m i memory, patch (trace m i) memory = trace (patch m memory) i
  patch_patch : ∀ (m : σ) first second, patch (patch m first) second = patch m second
  patch_memory : ∀ m : σ, patch m (memory m) = m

/-- Where reads change nothing, the step leaves the trace and nothing else. -/
theorem Laws.step_of_quiet {trace : σ → Nat → σ} (h : Laws trace) {m : σ} {u : Undecodable}
    (hquiet : (memory m).Quiet) (hready : Ready m) (hfails : Fails m u) :
    Core.step m = ⟨trace m 1, .error u.fault⟩ := by
  obtain ⟨looked, hlooked, hstep⟩ := h.gives_up hready hfails
  rw [hstep, hquiet.looked hlooked, h.patch_trace, h.patch_memory]

/-- Attempts and patches, as long as no step gets on, are all undone by one
patch more; only the attempts are counted. -/
theorem Laws.patch_after {trace : σ → Nat → σ} (h : Laws trace)
    (run : List (Attempt (Memory μ κ))) (memory : Memory μ κ) : ∀ m : σ, Ready m → Operable.Each Fruitless m run →
      patch (Operable.after m run) memory = trace (patch m memory) (attempts run) := by
  -- the last patch takes the place of all others, and commutes with the traces
  induction run with
  | nil =>
    intro m _ _
    exact (h.trace_zero _).symm
  | cons a run ih =>
    intro m hready heach
    obtain ⟨ha, hrest⟩ := heach
    rw [Operable.after_cons]
    cases a with
    | step =>
      obtain ⟨u, hu⟩ := ha
      obtain ⟨looked, _, hstep⟩ := h.gives_up hready hu
      have hperform : Operable.perform m (Attempt.step : Attempt (Memory μ κ)) =
          patch (trace m 1) looked := congrArg Ran.state hstep
      have hcount : attempts (.step :: run) = 1 + attempts run := by
        unfold attempts
        rw [List.countP_cons_of_pos rfl, Nat.add_comm]
      rw [hperform] at hrest ⊢
      rw [ih _ (h.ready_patch looked (h.ready_trace 1 hready)) hrest, h.patch_patch,
        h.patch_trace, h.trace_trace, hcount]
    | patch first =>
      have hcount : attempts (.patch first :: run) = attempts run := by
        unfold attempts
        rw [List.countP_cons_of_neg Bool.false_ne_true]
      have hpatched : Operable.perform m (Attempt.patch first) = patch m first := rfl
      rw [hpatched] at hrest ⊢
      rw [ih (patch m first) (h.ready_patch first hready) hrest, h.patch_patch, hcount]

end Bench

section

variable {σ μ κ : Type} [Core σ] [Bench σ μ κ] [Inhabited κ] [Mapper μ κ]

/-- A failed decode leaves nothing but `trace`. -/
structure LeavesNoTrace (trace : σ → Nat → σ) : Prop where
  /-- The step says so. Without a mapper the memory is quiet. -/
  failed : ∀ (m : σ) (u : Undecodable), (Bench.memory m).Quiet → Bench.Ready m →
    Bench.Fails m u → Core.step m = ⟨trace m 1, .error (.unrecognizedOpcode u.opcode u.table)⟩
  /-- Behind a mapper the cells have been read besides. -/
  looked : ∀ (m : σ) (u : Undecodable), Bench.Ready m → Bench.Fails m u →
    Bench.GivesUp trace m (.unrecognizedOpcode u.opcode u.table)
  /-- Whatever is attempted, once the memory is patched the machine is where the
  first attempt on that memory would have begun. -/
  patched : ∀ (m : σ) (run : List (Attempt (Memory μ κ))) (memory : Memory μ κ),
    Bench.Ready m → Operable.Each Bench.Fruitless m run →
      Bench.patch (Operable.after m run) memory = trace (Bench.patch m memory) (attempts run)

/-- On such a bench any number of failed decodes comes to the same as one. -/
theorem LeavesNoTrace.of_laws {trace : σ → Nat → σ} (h : Bench.Laws trace) :
    LeavesNoTrace trace where
  failed _ _ hquiet hready hfails := h.step_of_quiet hquiet hready hfails
  looked _ _ hready hfails := h.gives_up hready hfails
  patched m run memory hready hfruitless := h.patch_after run memory m hready hfruitless

end

variable {μ δ : Type}

/-! ## The Z80 -/

namespace Z80

/-- A hole behind an index prefix is found at its second byte. -/
theorem decodeIndexed_error {index : Index} {s : Stream Byte} {u : Undecodable}
    (h : decodeIndexed index s = .error u) : u.length = 2 ∧ u.fetches = 2 := by
  unfold decodeIndexed at h
  split at h
  case h_1 => cases h
  case h_5 => cases h
  all_goals
    cases h
    exact ⟨rfl, rfl⟩

/-- Two bytes are read before it is clear that they mean nothing, both as
opcodes. -/
theorem decode_error {s : Stream Byte} {u : Undecodable} (h : decode s = .error u) :
    u.length = 2 ∧ u.fetches = 2 := by
  unfold decode at h
  split at h
  next => cases h
  next =>
    split at h
    next => cases h
    next =>
      cases h
      exact ⟨rfl, rfl⟩
  next => exact decodeIndexed_error h
  next => exact decodeIndexed_error h
  next => cases h

namespace Machine

/-- Fetches add up. -/
theorem refresh_refresh (m : Machine μ δ) (i j : Nat) :
    (m.refresh i).refresh j = m.refresh (i + j) := by
  have hr : ((m.refresh i).refresh j).regs.r = (m.refresh (i + j)).regs.r := by
    apply UInt8.toNat_inj.mp
    rw [toNat_r_refresh, toNat_r_refresh, toNat_r_refresh]
    omega
  show { m with regs.r := ((m.refresh i).refresh j).regs.r } =
    { m with regs.r := (m.refresh (i + j)).regs.r }
  rw [hr]

theorem refresh_zero (m : Machine μ δ) : m.refresh 0 = m := by
  have hr : (m.refresh 0).regs.r = m.regs.r := by
    apply UInt8.toNat_inj.mp
    rw [toNat_r_refresh]
    omega
  show { m with regs.r := (m.refresh 0).regs.r } = m
  rw [hr]

variable [Mapper μ Byte]

instance : Bench (Machine μ δ) μ Byte where
  memory := memory
  patch m memory := { m with memory }
  Ready m := m.Ready
  Fails m u := m.fetched = .error u

variable [Observer δ Byte Byte]

theorem laws : Bench.Laws (σ := Machine μ δ) fun m i => m.refresh (2 * i) where
  gives_up hready hfails := by
    have hstep := step_of_undecodable (action_of_ready hready) hfails
    rw [(decode_error hfails).2] at hstep
    exact ⟨_, .reads .refl _ _, hstep⟩
  trace_zero m := m.refresh_zero
  trace_trace m i j := by rw [m.refresh_refresh, Nat.mul_add]
  ready_trace _ hready := hready
  ready_patch _ hready := hready
  patch_trace _ _ _ := rfl
  patch_patch _ _ _ := rfl
  patch_memory _ := rfl

end Machine

end Z80

/-! ## The others -/

namespace Bench

/-- A machine that a failed decode leaves as it was. -/
theorem Laws.of_unchanged {σ μ κ : Type} [Core σ] [Bench σ μ κ] [Inhabited κ] [Mapper μ κ]
    (hstep : ∀ {m : σ} {u : Undecodable}, Ready m → Fails m u →
      GivesUp (fun m _ => m) m u.fault)
    (hready : ∀ {m : σ} memory, Ready m → Ready (patch m memory))
    (hpatch : ∀ (m : σ) first second, patch (patch m first) second = patch m second)
    (hmemory : ∀ m : σ, patch m (memory m) = m) :
    Laws (σ := σ) fun m _ => m where
  gives_up := hstep
  trace_zero _ := rfl
  trace_trace _ _ _ := rfl
  ready_trace _ h := h
  ready_patch := hready
  patch_trace _ _ _ := rfl
  patch_patch := hpatch
  patch_memory := hmemory

end Bench

namespace Lr35902.Machine

variable [Mapper μ Byte]

instance : Bench (Machine μ) μ Byte where
  memory := memory
  patch m memory := { m with memory }
  Ready m := m.Ready
  Fails m u := m.fetched = .error u

/-- A scheduled EI stays scheduled: it lands once an instruction is run. -/
theorem laws : Bench.Laws (σ := Machine μ) fun m _ => m := by
  refine .of_unchanged (fun {m u} hready hfails => ?_) (fun _ hready => hready)
    (fun _ _ _ => rfl) fun _ => rfl
  have hawake : { m with halted := false } = m := by
    rw [← hready.1]
  have hstep := step_of_undecodable (action_of_ready hready) hfails
  rw [hawake] at hstep
  exact ⟨_, .reads .refl _ _, hstep⟩

end Lr35902.Machine

namespace Lmc.Machine

variable [Mapper μ Word] [Observer δ Port Word]

instance : Bench (Machine μ δ) μ Word where
  memory := memory
  patch m memory := { m with memory }
  Ready m := m.halted = false
  Fails m u := m.fetched = .error u

theorem laws : Bench.Laws (σ := Machine μ δ) fun m _ => m :=
  .of_unchanged
    (fun hready hfails => ⟨_, .read .refl _, step_of_undecodable hready hfails⟩)
    (fun _ hready => hready) (fun _ _ _ => rfl) fun _ => rfl

end Lmc.Machine

namespace Synacor.Machine

variable [Mapper μ Word] [Observer δ Byte Byte]

instance : Bench (Machine μ δ) μ Word where
  memory := memory
  patch m memory := { m with memory }
  Ready m := m.halted = false
  Fails m u := m.fetched = .error u

theorem laws : Bench.Laws (σ := Machine μ δ) fun m _ => m :=
  .of_unchanged
    (fun hready hfails => ⟨_, .reads .refl _ _, step_of_undecodable hready hfails⟩)
    (fun _ hready => hready) (fun _ _ _ => rfl) fun _ => rfl

end Synacor.Machine

/-! ## All four -/

/-- **A failed decode leaves no trace** but the two opcode fetches that the Z80
has counted in the low seven bits of its refresh register. -/
theorem failed_decode_leaves_no_trace (μ δ ν ε : Type) [Mapper μ Byte] [Observer δ Byte Byte]
    [Mapper ν Word] [Observer ε Lmc.Port Word] :
    LeavesNoTrace (σ := Z80.Machine μ δ) (fun m i => m.refresh (2 * i)) ∧
      (∀ (m : Z80.Machine μ δ) i,
        m.refresh i = { m with regs.r := (m.refresh i).regs.r } ∧
          (m.refresh i).regs.r.toNat =
            m.regs.r.toNat / 128 * 128 + (m.regs.r.toNat + i) % 128) ∧
      LeavesNoTrace (σ := Lr35902.Machine μ) (fun m _ => m) ∧
      LeavesNoTrace (σ := Lmc.Machine ν ε) (fun m _ => m) ∧
      LeavesNoTrace (σ := Synacor.Machine ν δ) (fun m _ => m) :=
  ⟨.of_laws Z80.Machine.laws, fun m i => ⟨rfl, m.toNat_r_refresh i⟩,
    .of_laws Lr35902.Machine.laws, .of_laws Lmc.Machine.laws, .of_laws Synacor.Machine.laws⟩

/-- A DD before an FD, across the end of the address space. After two attempts
and one on cells that are no better, the DD becomes a NOP; the refresh register
has passed 127. -/
theorem failed_decode_leaves_no_trace_at_wrap :
    let bad : Memory Empty Byte := .ofList [0xfd, 0, 0, 0xdd]
    let worse : Memory Empty Byte := .ofList [0xed, 0, 0, 0xdd]
    let good : Memory Empty Byte := .ofList [0xfd, 0, 0, 0]
    let m : Z80.Machine Empty (Recorder Byte Byte) :=
      { (.new bad 0xffff : Z80.Machine Empty (Recorder Byte Byte)) with regs.r := 0xfe }
    let run : List (Attempt (Memory Empty Byte)) := [.step, .step, .patch worse, .step]
    Operable.Each Bench.Fruitless m run ∧
      Bench.patch (Operable.after m run) good =
        { m with regs.r := 0x84, memory := good } := by
  intro bad worse good m run
  have hbad : m.fetched = .error ⟨0xfd, .indexed, 2, 2⟩ := by decide
  have hagain : m.step.state.fetched = .error ⟨0xfd, .indexed, 2, 2⟩ := by decide
  have hworse : Z80.Machine.fetched { m.step.state.step.state with memory := worse } =
      .error ⟨0xed, .indexed, 2, 2⟩ := by decide
  have hfruitless : Operable.Each Bench.Fruitless m run :=
    ⟨⟨_, hbad⟩, ⟨_, hagain⟩, trivial, ⟨_, hworse⟩, trivial⟩
  have hready : Bench.Ready m := ⟨rfl, rfl, fun _ => rfl⟩
  obtain ⟨hz80, _⟩ :=
    failed_decode_leaves_no_trace Empty (Recorder Byte Byte) Empty (Recorder Lmc.Port Word)
  have hr : (m.refresh (2 * attempts run)).regs.r = 0x84 := by decide
  refine ⟨hfruitless, (hz80.patched m run good hready hfruitless).trans ?_⟩
  show { m with regs.r := (m.refresh (2 * attempts run)).regs.r, memory := good } = _
  rw [hr]

end Retrocore
