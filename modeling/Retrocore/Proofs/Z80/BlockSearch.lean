import Retrocore.Proofs.Z80.Blocks

/-!
# CPIR and CPDR find the first match

A repeating block comparison looks at cell after cell and ends for either of two
reasons: the cell holds what the accumulator does, or BC has run out. Both may
happen in the same round, and the flags tell them apart: Z is about the cell, P/V
about the count.

How many rounds that takes is known from the start (`examined`), as nothing is
written on the way. The loop needs one thing of this number: a round is followed
by another if and only if it is not the last of them (`upToFirst_goes_on`).
-/

namespace Retrocore.Z80

/-! ## The first hit -/

/-- How many of `n` numbers are looked at until one hits: up to and with the first
that does, and all of them if none does. -/
def upToFirst (n : Nat) (hits : Nat → Bool) : Nat :=
  ((List.range n).find? hits).elim n (· + 1)

section

variable {n : Nat} {hits : Nat → Bool}

/-- A search ends with its first hit. -/
theorem upToFirst_of_hit {i : Nat} (hi : i < n) (hit : hits i = true)
    (hbefore : ∀ j < i, hits j = false) : upToFirst n hits = i + 1 := by
  have hfirst : (List.range n).find? hits = some i := by
    refine List.find?_range_eq_some.mpr ⟨hit, List.mem_range.mpr hi, fun j hj => ?_⟩
    rw [hbefore j hj]
    rfl
  unfold upToFirst
  rw [hfirst]
  rfl

/-- Without a hit it ends with the count. -/
theorem upToFirst_of_none (h : ∀ i < n, hits i = false) : upToFirst n hits = n := by
  have hnone : (List.range n).find? hits = none := by
    refine List.find?_range_eq_none.mpr fun i hi => ?_
    rw [h i hi]
    rfl
  unfold upToFirst
  rw [hnone]
  rfl

/-- Either there is a first hit, and it is the last number looked at, or all have
been looked at in vain. -/
theorem upToFirst_cases (n : Nat) (hits : Nat → Bool) :
    (∃ i < n, upToFirst n hits = i + 1 ∧ hits i = true ∧ ∀ j < i, hits j = false) ∨
      upToFirst n hits = n ∧ ∀ i < n, hits i = false := by
  rcases hfound : (List.range n).find? hits with _ | i
  · have hnone : ∀ i < n, hits i = false := fun i hi =>
      Bool.not_eq_true' _ ▸ List.find?_range_eq_none.mp hfound i hi
    exact .inr ⟨upToFirst_of_none hnone, hnone⟩
  · obtain ⟨hit, hmem, hbefore⟩ := List.find?_range_eq_some.mp hfound
    have hi : i < n := List.mem_range.mp hmem
    have hbefore : ∀ j < i, hits j = false := fun j hj => Bool.not_eq_true' _ ▸ hbefore j hj
    exact .inl ⟨i, hi, upToFirst_of_hit hi hit hbefore, hit, hbefore⟩

/-- No more is examined than has been asked for. -/
theorem upToFirst_le (n : Nat) (hits : Nat → Bool) : upToFirst n hits ≤ n := by
  rcases upToFirst_cases n hits with ⟨i, hi, heq, _⟩ | ⟨heq, _⟩ <;> omega

/-- At least one cell is examined. -/
theorem upToFirst_pos (hpos : 0 < n) : 0 < upToFirst n hits := by
  rcases upToFirst_cases n hits with ⟨i, _, heq, _⟩ | ⟨heq, _⟩ <;> omega

/-- Looking goes on as long as there is a number left and this one is no hit. -/
theorem upToFirst_goes_on {i : Nat} (hi : i < upToFirst n hits) :
    (decide (i + 1 < n) && !hits i) = decide (i + 1 < upToFirst n hits) := by
  rcases upToFirst_cases n hits with ⟨first, hfirst, heq, hit, hbefore⟩ | ⟨heq, hnone⟩
  · rw [heq] at hi ⊢
    by_cases hlast : i = first
    · rw [hlast, hit, Bool.not_true, Bool.and_false, decide_eq_false (by omega)]
    · have hlt : i < first := by omega
      rw [hbefore i hlt, decide_eq_true (show i + 1 < n by omega),
        decide_eq_true (show i + 1 < first + 1 by omega)]
      rfl
  · rw [heq] at hi ⊢
    rw [hnone i hi, Bool.not_false, Bool.and_true]

end

namespace Machine

variable {μ δ : Type} [Mapper μ Byte]

/-! ## One round -/

/-- A difference is zero if there is none. -/
theorem subBytes_beq_zero (a v : Byte) : (subBytes a v false == 0) = (v == a) := by
  have hsub : subBytes a v false = a - v := UInt8.sub_zero _
  rw [hsub, Bool.eq_iff_iff, beq_iff_eq, beq_iff_eq, UInt8.sub_eq_iff_eq_add, UInt8.zero_add]
  exact eq_comm

/-- The machine once a cell has been compared with. -/
def compareRound (m : Machine μ δ) (b : Block) : Machine μ δ :=
  let (res, flags) := Flags.sub8 m.regs.a (m.memory.value m.regs.hl) false
  let bc := m.regs.bc - 1
  let flags := { flags with carry := m.flags.carry, parity := bc != 0 }
  let moved := (m.setPair .hl (Block.next b m.regs.hl)).setPair .bc bc
  { moved with flags := flags.withBlockXY (res - bitByte flags.halfCarry) }

/-- One round of CPI or CPD, where a read changes nothing: it goes back unless the count
has run out or the cell is a hit. -/
theorem blockCompare_eq (m : Machine μ δ) (hquiet : m.memory.Quiet) (b : Block) :
    m.blockCompare b = (m.compareRound b).again b
      (m.regs.bc - 1 != 0 && !(m.memory.value m.regs.hl == m.regs.a)) := by
  rw [← subBytes_beq_zero]
  simp only [blockCompare, read_of_quiet hquiet]
  rfl

section

variable (m : Machine μ δ) (b : Block)

@[simp] theorem hl_compareRound : (m.compareRound b).regs.hl = Block.next b m.regs.hl :=
  wordOf_highByte_lowByte _

@[simp] theorem bc_compareRound : (m.compareRound b).regs.bc = m.regs.bc - 1 :=
  wordOf_highByte_lowByte _

@[simp] theorem a_compareRound : (m.compareRound b).regs.a = m.regs.a := rfl

@[simp] theorem carry_compareRound : (m.compareRound b).flags.carry = m.flags.carry := rfl

/-- Nothing is stored. -/
@[simp] theorem memory_compareRound : (m.compareRound b).memory = m.memory := rfl

@[simp] theorem ports_compareRound : (m.compareRound b).ports = m.ports := rfl

/-- A round does not touch interrupts, requests or the halt. -/
@[simp] theorem control_compareRound : (m.compareRound b).control = m.control := rfl

/-- Z says whether the cell is a hit. -/
@[simp] theorem zero_compareRound :
    (m.compareRound b).flags.zero = (m.memory.value m.regs.hl == m.regs.a) :=
  subBytes_beq_zero _ _

/-- P/V tells whether BC has run out. -/
@[simp] theorem parity_compareRound :
    (m.compareRound b).flags.parity = (m.regs.bc - 1 != 0) := rfl

end

/-- The cell that is examined in a round, counted from zero, holds what is
searched for. -/
def hits (m : Machine μ δ) (down : Bool) (i : Nat) : Bool :=
  m.memory.value (travel down m.regs.hl i) == m.regs.a

/-- How many cells a search examines, which has as many before it as BC says. -/
def examined (m : Machine μ δ) (down : Bool) : Nat :=
  upToFirst (rounds m.regs.bc) (m.hits down)

/-- What a search has come to after `n` rounds, wherever the program counter
stands. The flags are those of the round before, and have no meaning until there
is one. -/
structure HasSearched (m : Machine μ δ) (down : Bool) (n : Nat) (m' : Machine μ δ) : Prop where
  hl : m'.regs.hl = travel down m.regs.hl n
  bc : m'.regs.bc = m.regs.bc - UInt16.ofNat n
  a : m'.regs.a = m.regs.a
  carry : m'.flags.carry = m.flags.carry
  memory : m'.memory = m.memory
  ports : m'.ports = m.ports
  control : m'.control = m.control
  zero : ∀ i, n = i + 1 → m'.flags.zero = m.hits down i
  parity : 0 < n → m'.flags.parity = (m'.regs.bc != 0)
  subtract : 0 < n → m'.flags.subtract = true

variable {m m' : Machine μ δ} {down : Bool} {n : Nat}

/-- Nothing has been examined before the first round. -/
theorem HasSearched.start (m : Machine μ δ) (down : Bool) : m.HasSearched down 0 m where
  hl := (travel_zero down _).symm
  bc := (UInt16.sub_zero _).symm
  a := rfl
  carry := rfl
  memory := rfl
  ports := rfl
  control := rfl
  zero := fun i h => absurd h.symm (Nat.succ_ne_zero i)
  parity := fun h => absurd h (Nat.lt_irrefl 0)
  subtract := fun h => absurd h (Nat.lt_irrefl 0)

/-- What has been examined does not depend on where the processor goes on. -/
theorem HasSearched.jump (h : m.HasSearched down n m') (address : Word) :
    m.HasSearched down n (m'.jump address) :=
  { h with }

/-- The cell at HL is the one whose turn it is. -/
theorem HasSearched.hits_eq (h : m.HasSearched down n m') :
    (m'.memory.value m'.regs.hl == m'.regs.a) = m.hits down n := by
  rw [h.memory, h.hl, h.a]
  rfl

/-- One more round examines one more cell. -/
theorem HasSearched.round (h : m.HasSearched down n m') :
    m.HasSearched down (n + 1) (m'.pastBlock.compareRound ⟨.cp, down, true⟩) where
  hl := by
    rw [hl_compareRound, ← Block.next_travel ⟨.cp, down, true⟩ m.regs.hl n, ← h.hl]
    rfl
  bc := by
    rw [bc_compareRound, ← count_pred, ← h.bc]
    rfl
  a := (a_compareRound _ _).trans h.a
  carry := (carry_compareRound _ _).trans h.carry
  memory := (memory_compareRound _ _).trans h.memory
  ports := (ports_compareRound _ _).trans h.ports
  control := (control_compareRound _ _).trans h.control
  zero := by
    intro i hi
    obtain rfl : n = i := Nat.succ.inj hi
    exact (zero_compareRound _ _).trans h.hits_eq
  parity := by
    intro _
    rw [parity_compareRound, bc_compareRound]
  subtract := fun _ => rfl

variable [Observer δ Byte Byte]

/-- A repeating comparison stands at the program counter and is about to run. -/
structure StartsSearch (m : Machine μ δ) (down : Bool) : Prop where
  ready : m.Ready
  atBlock : m.AtBlock ⟨.cp, down, true⟩

/-- As many rounds as cells are examined. -/
theorem StartsSearch.loops (h : m.StartsSearch down) :
    m.Rounds ⟨.cp, down, true⟩ (m.examined down) (m.HasSearched down) where
  start := .start m down
  jump := fun _ _ address hsearched => hsearched.jump address
  round := by
    intro i m' hi hsearched hpc
    have hsame : ∀ a, m'.memory.value a = m.memory.value a := fun a => by rw [hsearched.memory]
    have hquiet : m'.memory.Quiet := hsearched.memory ▸ h.atBlock.quiet
    have hat := h.atBlock.of_unchanged hquiet hpc (hsame _) (hsame _)
    -- the count alone would go on for longer; both conditions make `examined`
    refine ⟨ready_of_control h.ready hsearched.control, hat, _, ?_, rfl, hsearched.round⟩
    show blockCompare _ _ = _
    have hcount := bc_bne_zero hsearched.bc (Nat.lt_of_lt_of_le hi (upToFirst_le _ _))
    have hhits : (m'.pastBlock.memory.value m'.pastBlock.regs.hl ==
        m'.pastBlock.regs.a) = m.hits down i := hsearched.hits_eq
    rw [blockCompare_eq m'.pastBlock hquiet, hcount, hhits, upToFirst_goes_on hi]
    rfl

/-- All that a search comes to that examines `k` cells: as many steps, of which
only the last leaves the instruction, and the state behind them. -/
structure FindsFirst (m : Machine μ δ) (down : Bool) (k : Nat) : Prop where
  stays : ∀ i < k, (Core.steps m i).state.regs.pc = m.regs.pc
  leaves : (Core.steps m k).state.regs.pc = m.regs.pc + 2
  cost : (Core.steps m k).result = .ok (21 * (k - 1) + 16)
  hl : (Core.steps m k).state.regs.hl = travel down m.regs.hl k
  bc : (Core.steps m k).state.regs.bc.toNat = rounds m.regs.bc - k
  /-- The last cell that was examined holds what was searched for. -/
  zero : (Core.steps m k).state.flags.zero = true ↔
    m.memory.value (travel down m.regs.hl (k - 1)) = m.regs.a
  parity : (Core.steps m k).state.flags.parity = true ↔ (Core.steps m k).state.regs.bc ≠ 0
  subtract : (Core.steps m k).state.flags.subtract = true
  a : (Core.steps m k).state.regs.a = m.regs.a
  carry : (Core.steps m k).state.flags.carry = m.flags.carry
  memory : (Core.steps m k).state.memory = m.memory

/-- **CPIR and CPDR find the first match.** A repeating block comparison examines
one cell in each step, up to the first that holds what the accumulator does and
no further than BC says. -/
theorem search_finds_first (h : m.StartsSearch down) :
    m.FindsFirst down (m.examined down) := by
  have hpos : 0 < m.examined down := upToFirst_pos (rounds_pos _)
  have hle : m.examined down ≤ rounds m.regs.bc := upToFirst_le _ _
  have hrun := h.loops.run rfl hpos
  obtain ⟨last, hlast⟩ : ∃ last, m.examined down = last + 1 := Nat.exists_eq_add_one.mpr hpos
  have hdone := hrun.holds _ (Nat.le_refl _)
  exact {
    stays := hrun.stays
    leaves := hrun.leaves
    cost := hrun.cost
    hl := hdone.hl
    bc := by
      rw [hdone.bc]
      exact toNat_count_sub hpos hle
    zero := by
      rw [hdone.zero last hlast, hlast, Nat.add_sub_cancel]
      exact beq_iff_eq
    parity := by
      rw [hdone.parity hpos]
      exact bne_iff_ne
    subtract := hdone.subtract hpos
    a := hdone.a
    carry := hdone.carry
    memory := hdone.memory }

/-- The accumulator holds 7, as does the last of the three cells. -/
def searcher : Machine Empty (Recorder Byte Byte) :=
  specimen ⟨.cp, false, true⟩ { a := 7, b := 0, c := 3, h := 0x01, l := 0x00 } {} 0x102 7

/-- The match is found as the count runs out, and the flags tell of both. -/
theorem search_finds_first_last :
    searcher.StartsSearch false ∧ (Core.steps searcher 3).result = .ok 58 ∧
      (Core.steps searcher 3).state.regs.bc.toNat = 0 ∧
      (Core.steps searcher 3).state.flags.zero = true := by
  have hread : ∀ a, searcher.memory.value a = _ := value_specimen
  have hstart : searcher.StartsSearch false :=
    ⟨ready_specimen, atBlock_specimen rfl (by decide) (by decide)⟩
  have hrounds : rounds searcher.regs.bc = 3 := by decide
  have hexamined : searcher.examined false = 3 := by
    unfold examined
    rw [hrounds]
    refine upToFirst_of_hit (by decide) (beq_iff_eq.mpr (hread 0x102)) fun j hj => ?_
    refine beq_eq_false_iff_ne.mpr ?_
    rw [hread]
    revert j
    decide
  have hdone := search_finds_first hstart
  rw [hexamined] at hdone
  refine ⟨hstart, hdone.cost, ?_, hdone.zero.mpr (hread 0x102)⟩
  rw [hdone.bc, hrounds]

end Machine

end Retrocore.Z80
