import Retrocore.Proofs.Z80.Blocks

/-!
# LDIR and LDDR copy byte by byte

A repeating block copy is one instruction that runs again and again: every round
copies a byte, moves HL and DE on, counts BC down and, unless that has reached
zero, goes back to the instruction itself. `HasCopied` is what some rounds have
made of a machine; one round keeps it (`HasCopied.round`) as long as the copy
does not write over the instruction, which has to be read anew each time.
`block_copy` follows the loop to its end.

What the copy comes to, with or without an overlap, is the matter of
`Proofs/Memory/Propagation`.
-/

namespace Retrocore.Z80

namespace Machine

variable {μ δ : Type} [Mapper μ Byte]

/-! ## One round -/

/-- The machine once a byte has been copied. -/
def copyRound (m : Machine μ δ) (b : Block) : Machine μ δ :=
  let v := m.memory.value m.regs.hl
  let bc := m.regs.bc - 1
  let flags : Flags := { m.flags with halfCarry := false, subtract := false, parity := bc != 0 }
  let moved := ((m.store m.regs.de v).setPair .hl (Block.next b m.regs.hl)).setPair .de
    (Block.next b m.regs.de)
  { moved.setPair .bc bc with flags := flags.withBlockXY (v + m.regs.a) }

/-- One round of LDI or LDD, where a read changes nothing: what it does, and whether it
goes back. -/
theorem blockLoad_eq (m : Machine μ δ) (hquiet : m.memory.Quiet) (b : Block) :
    m.blockLoad b = (m.copyRound b).again b (m.regs.bc - 1 != 0) := by
  simp only [blockLoad, read_of_quiet hquiet]
  rfl

@[simp] theorem pc_copyRound (m : Machine μ δ) (b : Block) :
    (m.copyRound b).regs.pc = m.regs.pc := by
  simp only [copyRound, setPair, store]

/-- BC counts down. -/
@[simp] theorem bc_copyRound (m : Machine μ δ) (b : Block) :
    (m.copyRound b).regs.bc = m.regs.bc - 1 :=
  wordOf_highByte_lowByte _

/-- P/V tells whether BC has run out. -/
theorem parity_copyRound (m : Machine μ δ) (b : Block) :
    (m.copyRound b).flags.parity = ((m.copyRound b).regs.bc != 0) := by
  rw [bc_copyRound]
  rfl

@[simp] theorem a_copyRound (m : Machine μ δ) (b : Block) :
    (m.copyRound b).regs.a = m.regs.a := by
  simp only [copyRound, setPair, store]

@[simp] theorem ports_copyRound (m : Machine μ δ) (b : Block) :
    (m.copyRound b).ports = m.ports := by
  simp only [copyRound, setPair, store]

/-- A round does not touch interrupts, requests or the halt. -/
@[simp] theorem control_copyRound (m : Machine μ δ) (b : Block) :
    (m.copyRound b).control = m.control := by
  simp only [control, copyRound, setPair, store]

/-- What `n` rounds of a copy, upwards or downwards, have made of `m`, wherever
the program counter stands. The sign, zero and carry flags and the accumulator
are as they were, and nothing that decides about interrupts has changed. -/
structure HasCopied (m : Machine μ δ) (down : Bool) (n : Nat) (m' : Machine μ δ) : Prop where
  memory : m'.memory = m.memory.copied down m.regs.hl m.regs.de n
  hl : m'.regs.hl = travel down m.regs.hl n
  de : m'.regs.de = travel down m.regs.de n
  bc : m'.regs.bc = m.regs.bc - UInt16.ofNat n
  /-- Each round is two opcode fetches. -/
  fetches : m'.regs.r.toNat % 128 = (m.regs.r.toNat + 2 * n) % 128
  topOfR : m'.regs.r.toNat / 128 = m.regs.r.toNat / 128
  a : m'.regs.a = m.regs.a
  sign : m'.flags.sign = m.flags.sign
  zero : m'.flags.zero = m.flags.zero
  carry : m'.flags.carry = m.flags.carry
  control : m'.control = m.control
  ports : m'.ports = m.ports

variable {m m' : Machine μ δ} {down : Bool} {n : Nat}

/-- Nothing has been copied before the first round. -/
theorem HasCopied.start (m : Machine μ δ) (down : Bool) : m.HasCopied down 0 m where
  memory := Memory.copied_zero.symm
  hl := (travel_zero down _).symm
  de := (travel_zero down _).symm
  bc := (UInt16.sub_zero _).symm
  fetches := rfl
  topOfR := rfl
  a := rfl
  sign := rfl
  zero := rfl
  carry := rfl
  control := rfl
  ports := rfl

/-- What has been copied does not depend on where the processor goes on. -/
theorem HasCopied.jump (h : m.HasCopied down n m') (address : Word) :
    m.HasCopied down n (m'.jump address) :=
  { h with }

/-- A round copies the next byte. -/
theorem HasCopied.round (h : m.HasCopied down n m') :
    m.HasCopied down (n + 1) (m'.pastBlock.copyRound ⟨.ld, down, true⟩) where
  memory := by
    rw [Memory.copied_succ, ← h.memory, ← h.hl, ← h.de]
    rfl
  hl := by
    have hnext := Block.next_travel ⟨.ld, down, true⟩ m.regs.hl n
    rw [← hnext, ← h.hl]
    exact wordOf_highByte_lowByte _
  de := by
    have hnext := Block.next_travel ⟨.ld, down, true⟩ m.regs.de n
    rw [← hnext, ← h.de]
    exact wordOf_highByte_lowByte _
  bc := by
    rw [← count_pred, ← h.bc]
    exact bc_copyRound _ _
  fetches := by
    have hr := (m'.jump (m'.regs.pc + 2)).toNat_r_refresh 2
    have hbefore : (m'.jump (m'.regs.pc + 2)).regs.r.toNat % 128 = _ := h.fetches
    show m'.pastBlock.regs.r.toNat % 128 = _
    unfold pastBlock
    omega
  topOfR := by
    have hr := (m'.jump (m'.regs.pc + 2)).toNat_r_refresh 2
    have hbefore : (m'.jump (m'.regs.pc + 2)).regs.r.toNat / 128 = _ := h.topOfR
    show m'.pastBlock.regs.r.toNat / 128 = _
    unfold pastBlock
    omega
  a := (a_copyRound _ _).trans h.a
  sign := h.sign
  zero := h.zero
  carry := h.carry
  control := (control_copyRound _ _).trans h.control
  ports := (ports_copyRound _ _).trans h.ports

/-- A repeating copy stands at the program counter and is about to run, in a
memory that fills the address space, and it will not write over itself. -/
structure StartsCopy (m : Machine μ δ) (down : Bool) : Prop where
  plain : m.memory.Plain
  ready : m.Ready
  atBlock : m.AtBlock ⟨.ld, down, true⟩
  clear : ∀ i < rounds m.regs.bc,
    travel down m.regs.de i ≠ m.regs.pc ∧ travel down m.regs.de i ≠ m.regs.pc + 1

/-- A round decides nothing about interrupts. -/
theorem HasCopied.ready (h : m.HasCopied down n m') (hready : m.Ready) : m'.Ready :=
  ready_of_control hready h.control

/-- Copying leaves the memory plain. -/
theorem HasCopied.plain (h : m.HasCopied down n m') (hplain : m.memory.Plain) :
    m'.memory.Plain := by
  rw [h.memory, Memory.copied_eq_stored]
  exact hplain.stored n

/-- The instruction has not been written over, and stands where it did. -/
theorem HasCopied.atBlock (h : m.HasCopied down n m') (hstart : m.StartsCopy down)
    (hn : n ≤ rounds m.regs.bc) (hpc : m'.regs.pc = m.regs.pc) :
    m'.AtBlock ⟨.ld, down, true⟩ := by
  have hclear := fun i hi => hstart.clear i (Nat.lt_of_lt_of_le hi hn)
  refine hstart.atBlock.of_unchanged (h.plain hstart.plain).quiet hpc ?_ ?_
  · rw [h.memory]
    exact Memory.value_copied_outside hstart.plain fun i hi => (hclear i hi).1.symm
  · rw [h.memory]
    exact Memory.value_copied_outside hstart.plain fun i hi => (hclear i hi).2.symm

variable [Observer δ Byte Byte]

/-- The step that leaves the copy. -/
theorem step_of_last (hready : m.Ready) (hat : m.AtBlock ⟨.ld, down, true⟩)
    (hlast : m.regs.bc - 1 = 0) :
    m.step = ⟨m.pastBlock.copyRound ⟨.ld, down, true⟩, .ok 16⟩ := by
  have hcount : (m.pastBlock.regs.bc - 1 != 0) = false := by
    show (m.regs.bc - 1 != 0) = false
    rw [hlast]
    rfl
  refine step_of_done hready hat ?_
  show blockLoad _ _ = _
  rw [blockLoad_eq m.pastBlock hat.quiet, hcount]

/-! ## All rounds -/

/-- As many rounds as bytes are copied. -/
theorem StartsCopy.loops (h : m.StartsCopy down) :
    m.Rounds ⟨.ld, down, true⟩ (rounds m.regs.bc) (m.HasCopied down) where
  start := .start m down
  jump := fun _ _ address hcopied => hcopied.jump address
  round := by
    intro i m' hi hcopied hpc
    have hat := hcopied.atBlock h (Nat.le_of_lt hi) hpc
    refine ⟨hcopied.ready h.ready, hat, _, ?_, pc_copyRound _ _, hcopied.round⟩
    show blockLoad _ _ = _
    rw [blockLoad_eq m'.pastBlock hat.quiet, bc_bne_zero hcopied.bc hi]

/-- The copy is at its instruction before each of the rounds. -/
theorem StartsCopy.steps (h : m.StartsCopy down) :
    ∀ i < rounds m.regs.bc, (Core.steps m i).result = .ok (21 * i) ∧
      m.HasCopied down i (Core.steps m i).state ∧
      (Core.steps m i).state.regs.pc = m.regs.pc :=
  h.loops.steps rfl

/-- After the last round the copy is left. -/
theorem StartsCopy.steps_last (h : m.StartsCopy down) (hn : rounds m.regs.bc = n + 1) :
    Core.steps m (n + 1) =
      ⟨(Core.steps m n).state.pastBlock.copyRound ⟨.ld, down, true⟩,
        .ok (21 * n + 16)⟩ := by
  obtain ⟨hcost, hcopied, hpc⟩ := h.steps n (by omega)
  have hlast : (Core.steps m n).state.regs.bc - 1 = 0 := by
    rw [hcopied.bc, count_pred]
    exact (count_eq_zero_iff (Nat.succ_pos n) (Nat.le_of_eq hn.symm)).mpr hn.symm
  have hat := hcopied.atBlock h (by omega) hpc
  have hstep : Core.step (Core.steps m n).state = _ :=
    step_of_last (hcopied.ready h.ready) hat hlast
  rw [Core.steps_succ hcost, hstep, Nat.add_comm]
  rfl

/-- All that a repeating copy of `n` bytes comes to: `n` steps, of which only
the last leaves the instruction, and the state behind them. -/
structure CopiesBlock (m : Machine μ δ) (down : Bool) (n : Nat) : Prop where
  stays : ∀ i < n, (Core.steps m i).state.regs.pc = m.regs.pc
  leaves : (Core.steps m n).state.regs.pc = m.regs.pc + 2
  cost : (Core.steps m n).result = .ok (21 * (n - 1) + 16)
  hasCopied : m.HasCopied down n (Core.steps m n).state
  bc : (Core.steps m n).state.regs.bc = 0
  parity : (Core.steps m n).state.flags.parity = false
  halfCarry : (Core.steps m n).state.flags.halfCarry = false
  subtract : (Core.steps m n).state.flags.subtract = false
  /-- Without an overlap the target ends up as the source was. -/
  exactCopy : (∀ i < n, ∀ j < n, travel down m.regs.hl i ≠ travel down m.regs.de j) →
    ∀ i < n, (Core.steps m n).state.memory.value (travel down m.regs.de i) =
      m.memory.value (travel down m.regs.hl i)
  /-- In any case the cells between source and target repeat all over it. -/
  propagates : ∀ i < n, (Core.steps m n).state.memory.value (travel down m.regs.de i) =
    m.memory.value (travel down m.regs.hl (i % distance down m.regs.hl m.regs.de))
  elsewhere : ∀ a, (∀ i < n, a ≠ travel down m.regs.de i) →
    (Core.steps m n).state.memory.value a = m.memory.value a

/-- **LDIR and LDDR are the sequential copy of a block.** A repeating block copy
that does not write over itself copies as many bytes as BC says, one after the
other, in as many steps. -/
theorem block_copy (h : m.StartsCopy down) : m.CopiesBlock down (rounds m.regs.bc) := by
  obtain ⟨n, hn⟩ : ∃ n, rounds m.regs.bc = n + 1 :=
    Nat.exists_eq_add_one.mpr (rounds_pos m.regs.bc)
  have hle : n + 1 ≤ 65536 := hn ▸ rounds_le m.regs.bc
  obtain ⟨_, hbefore, hpc⟩ := h.steps n (by omega)
  -- the last round is the only one that does not go back
  have hend := h.steps_last hn
  have hzero : m.regs.bc - UInt16.ofNat (n + 1) = 0 :=
    (count_eq_zero_iff (Nat.succ_pos n) (Nat.le_of_eq hn.symm)).mpr hn.symm
  have hcopied : m.HasCopied down (n + 1) (Core.steps m (n + 1)).state := by
    rw [hend]
    exact hbefore.round
  have hbc : (Core.steps m (n + 1)).state.regs.bc = 0 := hcopied.bc.trans hzero
  rw [hn]
  exact {
    stays := fun i hi => (h.steps i (by omega)).2.2
    leaves := by
      rw [hend, ← hpc]
      exact pc_copyRound _ _
    cost := by
      rw [hend]
      rfl
    hasCopied := hcopied
    bc := hbc
    parity := by
      rw [hend] at hbc ⊢
      rw [parity_copyRound, hbc]
      rfl
    halfCarry := by
      rw [hend]
      rfl
    subtract := by
      rw [hend]
      rfl
    exactCopy := fun hdisjoint i hi => by
      rw [hcopied.memory]
      exact Memory.value_copied_of_disjoint h.plain hle hdisjoint hi
    propagates := fun i hi => by
      rw [hcopied.memory]
      exact Memory.value_copied h.plain hi hle
    elsewhere := fun a ha => by
      rw [hcopied.memory]
      exact Memory.value_copied_outside h.plain ha }

/-- A memory with LDIR at its start and a byte to fill some cells with. -/
def fillerMemory : Memory Empty Byte :=
  (((Memory.zeros 65536).write 0 0xed).write 1 0xb0).write 0x100 7

/-- LDIR with a target one cell ahead of its source. -/
def filler : Machine Empty (Recorder Byte Byte) where
  regs := { b := 0, c := 3, d := 0x01, e := 0x01, h := 0x01, l := 0x00 }
  flags := {}
  iff1 := false
  iff2 := false
  mode := .zero
  halted := false
  stopped := false
  pending := none
  nmiPending := false
  initialPc := 0
  ports := {}
  memory := fillerMemory

/-- The first byte is copied into all cells of the target. -/
theorem block_copy_filler :
    filler.StartsCopy false ∧ (Core.steps filler 3).result = .ok 58 ∧
      (Core.steps filler 3).state.memory.value 0x103 = 7 := by
  have hzeros : (Memory.zeros 65536 : Memory Empty Byte).Plain := Memory.plain_zeros
  have hplain : fillerMemory.Plain := ((hzeros.write 0 0xed).write 1 0xb0).write 0x100 7
  have hread : ∀ a, fillerMemory.value a =
      if 0x100 = a then 7 else if 1 = a then 0xb0 else if 0 = a then 0xed else
        (Memory.zeros 65536 : Memory Empty Byte).value a := by
    intro a
    unfold fillerMemory
    rw [((hzeros.write 0 0xed).write 1 0xb0).value_write, (hzeros.write 0 0xed).value_write,
      hzeros.value_write]
  have hrounds : rounds filler.regs.bc = 3 := by decide
  have hstart : filler.StartsCopy false := {
    plain := hplain
    ready := ⟨rfl, rfl, fun _ => rfl⟩
    atBlock := ⟨hplain.quiet, hread 0, hread 1⟩
    clear := by
      rw [hrounds]
      decide }
  have hdone := block_copy hstart
  rw [hrounds] at hdone
  refine ⟨hstart, hdone.cost, (hdone.propagates 2 (by decide)).trans ?_⟩
  exact hread 0x100

end Machine

end Retrocore.Z80
