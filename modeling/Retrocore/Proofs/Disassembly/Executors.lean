import Retrocore.Proofs.Disassembly.Faithful

/-!
# The five executors

What it means for each machine to be ready for an instruction, what it does with
one that it has decoded, and which instructions lead elsewhere than behind
themselves. `runs_as_shown` puts the five together.
-/

namespace Retrocore

variable {μ δ : Type}

/-! ## The 8080 -/

namespace I8080.Machine

/-- The next step runs the instruction at the program counter. -/
def Ready (m : Machine μ δ) : Prop :=
  m.halted = false ∧ (m.inte = true → m.pending = none)

/-- An 8080 that is ready runs the instruction at the program counter. -/
theorem action_of_ready {m : Machine μ δ} (h : m.Ready) : m.action = .run := by
  obtain ⟨hhalted, hquiet⟩ := h
  unfold action
  cases hinte : m.inte with
  | false => simp only [hhalted, Bool.false_eq_true, if_false]
  | true => simp only [hquiet hinte, hhalted, Bool.false_eq_true, if_false]

theorem action_eq_run_iff {m : Machine μ δ} : m.action = .run ↔ m.Ready := by
  refine ⟨fun h => ?_, action_of_ready⟩
  unfold action at h
  split at h
  next => cases h
  next hquiet =>
    by_cases hhalted : m.halted = true
    · rw [if_pos hhalted] at h
      cases h
    · refine ⟨Bool.not_eq_true _ ▸ hhalted, fun hinte => ?_⟩
      rw [Option.eq_none_iff_forall_ne_some]
      exact fun opcode hpending => hquiet opcode hinte hpending

end I8080.Machine

def I8080.executor (μ δ : Type) [Mapper μ Byte] [Observer δ Byte Byte] :
    Executor μ Byte I8080.Instruction (I8080.Machine μ δ) where
  dialect := Dialect.i8080
  decode s := .ok (I8080.decode s)
  text _ i := i.text
  size := I8080.memorySize
  memory m := m.memory
  Ready m := m.Ready
  perform m d := (m.advance d.length).execute d.instruction
  Leaps _ i := i.isBranch = true
  bus := Nat.le_refl _
  dialect_eq _ _ := rfl
  congr h := congrArg _ (I8080.decode_congr h)
  length_pos h := by
    cases h
    exact I8080.decode_length_pos _
  step_ok hready h := I8080.Machine.step_of_fetched
    (I8080.Machine.action_of_ready hready) (Except.ok.inj h)
  step_error _ h := by cases h
  pc_perform _ hleaps _ := I8080.Machine.pc_execute _ (Bool.not_eq_true _ ▸ hleaps)

/-! ## The Z80 -/

namespace Z80.Machine

def Ready (m : Machine μ δ) : Prop :=
  m.halted = false ∧ m.nmiPending = false ∧ (m.iff1 = true → m.pending = none)

theorem action_of_ready {m : Machine μ δ} (h : m.Ready) : m.action = .run := by
  obtain ⟨hhalted, hnmi, hquiet⟩ := h
  unfold action
  rw [hnmi]
  cases hiff : m.iff1 with
  | false => simp only [hhalted, Bool.false_eq_true, if_false]
  | true => simp only [hquiet hiff, hhalted, Bool.false_eq_true, if_false]

theorem action_eq_run_iff {m : Machine μ δ} : m.action = .run ↔ m.Ready := by
  refine ⟨fun h => ?_, action_of_ready⟩
  unfold action at h
  by_cases hnmi : m.nmiPending = true
  · rw [if_pos hnmi] at h
    cases h
  · rw [if_neg hnmi] at h
    split at h
    next => cases h
    next hquiet =>
      by_cases hhalted : m.halted = true
      · rw [if_pos hhalted] at h
        cases h
      · refine ⟨Bool.not_eq_true _ ▸ hhalted, Bool.not_eq_true _ ▸ hnmi, fun hiff => ?_⟩
        rw [Option.eq_none_iff_forall_ne_some]
        exact fun byte hpending => hquiet byte hiff hpending

end Z80.Machine

def Z80.executor (μ δ : Type) [Mapper μ Byte] [Observer δ Byte Byte] :
    Executor μ Byte Z80.Instruction (Z80.Machine μ δ) where
  dialect := Dialect.z80
  decode := Z80.decode
  text address i := i.textAt (some address)
  size := Z80.memorySize
  memory m := m.memory
  Ready m := m.Ready
  perform m d :=
    (((m.advance d.length).refresh d.fetches).execute d.instruction).plus
      (Z80.Cycles.of d)
  Leaps _ i := i.isBranch = true ∨ i.repeats = true
  bus := Nat.le_refl _
  dialect_eq _ _ := rfl
  congr h := Z80.decode_congr h
  length_pos h := Z80.decode_length_pos h
  step_ok hready h :=
    Z80.Machine.step_of_fetched (Z80.Machine.action_of_ready hready) h
  step_error hready h := congrArg Ran.result
    (Z80.Machine.step_of_undecodable (Z80.Machine.action_of_ready hready) h)
  pc_perform _ hleaps _ := by
    rw [not_or, Bool.not_eq_true, Bool.not_eq_true] at hleaps
    exact Z80.Machine.pc_execute _ hleaps.1 hleaps.2

/-! ## The LR35902 -/

namespace Lr35902.Machine

def Ready (m : Machine μ) : Prop :=
  m.halted = false ∧ (m.ime = true → m.pending = none)

theorem action_of_ready {m : Machine μ} (h : m.Ready) : m.action = .run := by
  obtain ⟨hhalted, hquiet⟩ := h
  unfold action
  cases hpending : m.pending with
  | none => simp only [hhalted, Bool.false_eq_true, if_false]
  | some vector =>
    have hime : ¬ m.ime = true := by
      intro hime
      rw [hquiet hime] at hpending
      cases hpending
    exact if_neg hime

end Lr35902.Machine

def Lr35902.executor (μ : Type) [Mapper μ Byte] :
    Executor μ Byte Lr35902.Instruction (Lr35902.Machine μ) where
  dialect := Dialect.lr35902
  decode := Lr35902.decode
  text address i := i.textAt (some address)
  size := Lr35902.memorySize
  memory m := m.memory
  Ready m := m.Ready
  perform m d := { m with halted := false }.run d
  Leaps _ i := i.isBranch = true
  bus := Nat.le_refl _
  dialect_eq _ _ := rfl
  congr h := Lr35902.decode_congr h
  length_pos h := Lr35902.decode_length_pos h
  step_ok hready h :=
    Lr35902.Machine.step_of_fetched (Lr35902.Machine.action_of_ready hready) h
  step_error hready h := congrArg Ran.result
    (Lr35902.Machine.step_of_undecodable (Lr35902.Machine.action_of_ready hready) h)
  pc_perform _ hleaps _ :=
    Lr35902.Machine.pc_execute _ (Bool.not_eq_true _ ▸ hleaps)

/-! ## The Little Man Computer -/

/-- Among the mailboxes the program counter does not wrap. -/
theorem Lmc.toUInt16_succ {pc : Byte} (h : pc.toUInt16.toNat < mailboxes) :
    (pc + 1).toUInt16 = pc.toUInt16 + UInt16.ofNat 1 := by
  rw [UInt8.toNat_toUInt16, mailboxes] at h
  apply UInt16.toNat_inj.mp
  simp only [UInt8.toNat_toUInt16, UInt8.toNat_add, UInt16.toNat_add,
    UInt16.toNat_ofNat', UInt8.toNat_ofNat]
  omega

def Lmc.executor (μ δ : Type) [Mapper μ Word] [Observer δ Lmc.Port Word] :
    Executor μ Word Lmc.Instruction (Lmc.Machine μ δ) where
  dialect := Dialect.lmc
  decode := Lmc.decode
  text _ i := i.text
  size := Lmc.mailboxes
  memory m := m.memory
  Ready m := m.halted = false
  perform m d := m.advance.execute d.instruction
  Leaps m i := i.isBranch = true ∨ (i = .inp ∧ m.Starved)
  bus := by decide
  dialect_eq _ _ := rfl
  congr h := Lmc.decode_congr h
  length_pos h := by
    rw [Lmc.decode_length h]
    exact Nat.one_pos
  step_ok hready h := Lmc.Machine.step_of_fetched hready h
  step_error hready h :=
    congrArg Ran.result (Lmc.Machine.step_of_undecodable hready h)
  pc_perform {m d} h hleaps hin := by
    rw [not_or, Bool.not_eq_true, not_and] at hleaps
    have hpc := m.advance.pc_execute hleaps.1 hleaps.2
    show (Lmc.Machine.execute _ _).state.pc.toUInt16 =
        m.pc.toUInt16 + UInt16.ofNat d.length
    rw [hpc, Lmc.decode_length h]
    exact Lmc.toUInt16_succ hin

/-! ## The Synacor machine -/

def Synacor.executor (μ δ : Type) [Mapper μ Word] [Observer δ Byte Byte] :
    Executor μ Word Synacor.Instruction (Synacor.Machine μ δ) where
  dialect := Dialect.synacor
  decode := Synacor.decode
  text _ i := i.text
  size := Synacor.memorySize
  memory m := m.memory
  Ready m := m.halted = false
  perform m d := (m.advance d.length).execute d.instruction
  Leaps m i := i.isBranch = true ∨ (i.isInput = true ∧ m.Starved)
  bus := by decide
  dialect_eq _ _ := rfl
  congr h := Synacor.decode_congr h
  length_pos h := Synacor.decode_length_pos h
  step_ok hready h := Synacor.Machine.step_of_fetched hready h
  step_error hready h :=
    congrArg Ran.result (Synacor.Machine.step_of_undecodable hready h)
  pc_perform {m d} _ hleaps _ := by
    rw [not_or, Bool.not_eq_true, not_and] at hleaps
    exact Synacor.Machine.pc_execute _ hleaps.1 hleaps.2

/-! ## All five -/

/-- **The executor runs what the disassembler shows**, on every machine,
whatever mappers it could have had and whatever is connected to it. -/
theorem runs_as_shown (μ δ ν ε : Type) [Mapper μ Byte] [Observer δ Byte Byte]
    [Mapper ν Word] [Observer ε Lmc.Port Word] :
    (I8080.executor μ δ).Faithful ∧ (Z80.executor μ δ).Faithful ∧
    (Lr35902.executor μ).Faithful ∧ (Lmc.executor ν ε).Faithful ∧
    (Synacor.executor ν δ).Faithful :=
  ⟨Executor.faithful _, Executor.faithful _, Executor.faithful _,
    Executor.faithful _, Executor.faithful _⟩

/-- The last line of a file that ends in the middle of an instruction, behind
two bytes that no instruction starts with: a Z80 reads the missing operand as
the zero that the line shows. -/
theorem runs_as_shown_cut_short :
    let image : Array Byte := #[0xdd, 0xed, 0x3e]
    let line : Line := ⟨0x102, "ld a, 0x00", false⟩
    let m : Z80.Machine Empty (Recorder Byte Byte) :=
      .new (loaded Z80.memorySize image 0x100) 0x102
    ∃ pos cells,
      (Z80.executor Empty (Recorder Byte Byte)).RunsAsShown m image pos line
        cells := by
  intro image line m
  obtain ⟨_, hz80, _⟩ :=
    runs_as_shown Empty (Recorder Byte Byte) Empty (Recorder Lmc.Port Word)
  have hfit : (0x100 : Word).toNat + image.size + 3 ≤ Z80.memorySize := by decide
  have hlines : Dialect.z80.disassemble image 0x100 =
      [⟨0x100, "db 0xdd", false⟩, ⟨0x101, "db 0xed", false⟩] ++ line :: [] := by
    decide +kernel
  obtain ⟨pos, cells, _, _, _, _, hrun⟩ := hz80 image 0x100 _ line [] hfit hlines
  have hmemory : (Z80.executor Empty (Recorder Byte Byte)).memory m =
      loaded (Z80.executor Empty (Recorder Byte Byte)).size image 0x100 := by
    simp only [Z80.executor, m, Z80.Machine.new]
  have hready : (Z80.executor Empty (Recorder Byte Byte)).Ready m :=
    ⟨rfl, rfl, fun _ => rfl⟩
  have hpc : Core.pc m = line.address := rfl
  clear_value m
  exact ⟨pos, cells, hrun m hmemory hready hpc⟩

end Retrocore
