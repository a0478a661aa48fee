import Mathlib.Data.Nat.Bitwise
import Retrocore.Proofs.Calls
import Retrocore.Proofs.Disassembly.Executors
import Retrocore.Proofs.Frames.Z80
import Retrocore.Proofs.Memory.Propagation

/-!
# Block instructions at the program counter

A block instruction takes two cells: `ed`, and an opcode that says what is done
with each byte, in which direction, and whether that is repeated. `step_of_atBlock`
is the step that runs one round of it; a repeating one that is not done goes back
to itself afterwards (`again_of_more`).

A round counts as two opcode fetches, in the low seven bits of the refresh
register (`toNat_r_refresh`).

`Rounds` is what has to be known of each round of such a loop, and `Rounds.run`
the loop as a whole: how many steps it takes, where they leave the program
counter, and what they cost. How many rounds there are is told by a count in a
word (`rounds`) or in a byte (`roundsOfByte`), for which zero is the largest.
-/

namespace Retrocore.Z80

/-! ## Opcodes -/

def BlockKind.code : BlockKind → Nat
  | ld => 0
  | cp => 1
  | inp => 2
  | out => 3

/-- The opcode of a block instruction, which stands behind an `ed` byte. -/
def Block.opcode (b : Block) : Byte :=
  UInt8.ofNat (0xa0 + 16 * b.repeating.toNat + 8 * b.down.toNat + b.kind.code)

/-- The extended table finds a block instruction under its opcode. -/
theorem decodeExtended_opcode (b : Block) (s : Stream Byte) :
    decodeExtended b.opcode s = some (.block b, 0) := by
  obtain ⟨kind, down, repeating⟩ := b
  cases kind <;> cases down <;> cases repeating <;> rfl

/-- LDIR is `ed b0`, and LDDR `ed b8`. -/
example : Block.opcode ⟨.ld, false, true⟩ = 0xb0 ∧ Block.opcode ⟨.ld, true, true⟩ = 0xb8 := by
  decide

/-! ## Counts -/

/-- How many rounds a count stands for whose register has `size` values. A count
is lowered before it is compared with zero, so that zero stands for all of
them. -/
def roundsOf (size count : Nat) : Nat := if count = 0 then size else count

/-- What is left of a count that has been lowered in a register. -/
theorem sub_mod_roundsOf {size count n : Nat} (hcount : count < size) (hpos : 0 < n)
    (hle : n ≤ roundsOf size count) :
    (size - n % size + count) % size = roundsOf size count - n := by
  unfold roundsOf at hle ⊢
  by_cases hzero : count = 0
  · rw [if_pos hzero] at hle ⊢
    rcases Nat.lt_or_eq_of_le hle with hlt | rfl
    · rw [hzero, Nat.mod_eq_of_lt hlt, Nat.add_zero, Nat.mod_eq_of_lt (by omega)]
    · rw [hzero, Nat.mod_self, Nat.sub_zero, Nat.add_zero, Nat.mod_self, Nat.sub_self]
  · rw [if_neg hzero] at hle ⊢
    have hsplit : size - n + count = size + (count - n) := by omega
    rw [Nat.mod_eq_of_lt (Nat.lt_of_le_of_lt hle hcount), hsplit, Nat.add_mod_left,
      Nat.mod_eq_of_lt (by omega)]

/-- How many rounds a count stands for; zero stands for all of the address
space. -/
def rounds (count : Word) : Nat := if count = 0 then 65536 else count.toNat

/-- As with any counter, zero stands for the largest number. -/
theorem rounds_eq (count : Word) : rounds count = roundsOf 65536 count.toNat := by
  have hzero : count = 0 ↔ count.toNat = 0 := UInt16.toNat_inj.symm
  simp only [rounds, roundsOf, hzero]

/-- A block instruction is always run once. -/
theorem rounds_pos (count : Word) : 0 < rounds count := by
  unfold rounds
  split
  next => omega
  next hne =>
    have hnat : count.toNat ≠ 0 := fun h => hne (UInt16.toNat_inj.mp h)
    omega

/-- A block goes once round the address space at most. -/
theorem rounds_le (count : Word) : rounds count ≤ 65536 := by
  have hlt := count.toNat_lt
  unfold rounds
  split <;> omega

/-- What is left of the count after some rounds, none of them superfluous. -/
theorem toNat_count_sub {count : Word} {n : Nat} (hpos : 0 < n) (hle : n ≤ rounds count) :
    (count - UInt16.ofNat n).toNat = rounds count - n := by
  rw [rounds_eq] at hle ⊢
  rw [UInt16.toNat_sub, UInt16.toNat_ofNat']
  exact sub_mod_roundsOf count.toNat_lt hpos hle

/-- A count that is lowered round by round reaches zero with the last of them,
and not before. -/
theorem count_eq_zero_iff {count : Word} {n : Nat} (hpos : 0 < n) (hle : n ≤ rounds count) :
    count - UInt16.ofNat n = 0 ↔ n = rounds count := by
  rw [← UInt16.toNat_inj, toNat_count_sub hpos hle, UInt16.toNat_zero]
  omega

/-- One round more takes one more off. -/
theorem count_pred (count : Word) (n : Nat) :
    count - UInt16.ofNat n - 1 = count - UInt16.ofNat (n + 1) :=
  (travel_succ true count n).symm

/-- Another round follows unless the count runs out in this one. -/
theorem count_bne_zero {count : Word} {i : Nat} (hi : i < rounds count) :
    (count - UInt16.ofNat i - 1 != 0) = decide (i + 1 < rounds count) := by
  have hzero := count_eq_zero_iff (Nat.succ_pos i) hi
  rw [count_pred, Bool.eq_iff_iff, bne_iff_ne, decide_eq_true_eq, Ne, hzero]
  omega

/-- The same of a count in a byte. -/
def roundsOfByte (count : Byte) : Nat := roundsOf 256 count.toNat

/-- There is a first round in any case. -/
theorem roundsOfByte_pos (count : Byte) : 0 < roundsOfByte count := by
  unfold roundsOfByte roundsOf
  split <;> omega

theorem roundsOfByte_le (count : Byte) : roundsOfByte count ≤ 256 := by
  have hlt := count.toNat_lt
  unfold roundsOfByte roundsOf
  split <;> omega

/-- B has come to zero exactly after the last round. -/
theorem byteCount_eq_zero_iff {count : Byte} {n : Nat} (hpos : 0 < n)
    (hle : n ≤ roundsOfByte count) : count - UInt8.ofNat n = 0 ↔ n = roundsOfByte count := by
  have hleft : (count - UInt8.ofNat n).toNat = roundsOfByte count - n := by
    rw [UInt8.toNat_sub, UInt8.toNat_ofNat']
    exact sub_mod_roundsOf count.toNat_lt hpos hle
  rw [← UInt8.toNat_inj, hleft, UInt8.toNat_zero]
  omega

theorem byteCount_pred (count : Byte) (n : Nat) :
    count - UInt8.ofNat n - 1 = count - UInt8.ofNat (n + 1) := by
  have hone : UInt8.ofNat (n + 1) = UInt8.ofNat n + 1 := UInt8.ofNat_add n 1
  rw [hone]
  grind

/-- A round finds B at zero exactly if it is the last. -/
theorem byteCount_bne_zero {count : Byte} {i : Nat} (hi : i < roundsOfByte count) :
    (count - UInt8.ofNat i - 1 != 0) = decide (i + 1 < roundsOfByte count) := by
  have hzero := byteCount_eq_zero_iff (Nat.succ_pos i) hi
  rw [byteCount_pred, Bool.eq_iff_iff, bne_iff_ne, decide_eq_true_eq, Ne, hzero]
  omega

/-! ## The refresh register -/

/-- The top bit of one byte in front of the other bits of another. -/
theorem toNat_topBit_or (r s : Byte) :
    ((r &&& 0x80) ||| (s &&& 0x7f)).toNat = r.toNat / 128 * 128 + s.toNat % 128 := by
  have hr := r.toNat_lt
  have hlow : s.toNat &&& 127 = s.toNat % 128 := Nat.and_two_pow_sub_one_eq_mod s.toNat 7
  have hhigh : r.toNat &&& 128 = r.toNat / 128 * 128 := by
    have htop : r.toNat / 128 = 0 ∨ r.toNat / 128 = 1 := by omega
    calc r.toNat &&& 2 ^ 7
      _ = (r.toNat.testBit 7).toNat * 2 ^ 7 := Nat.and_two_pow _ 7
      _ = r.toNat / 128 * 128 := by
        rw [Nat.testBit_eq_decide_div_mod_eq]
        rcases htop with h | h <;> simp [h]
  simp only [UInt8.toNat_or, UInt8.toNat_and]
  show (r.toNat &&& 128) ||| (s.toNat &&& 127) = _
  have hlt : s.toNat % 128 < 2 ^ 7 := Nat.mod_lt _ (by decide)
  rw [hlow, hhigh, Nat.mul_comm]
  exact (Nat.two_pow_add_eq_or_of_lt hlt _).symm

namespace Machine

variable {μ δ : Type} {m m' : Machine μ δ}

/-- Nothing but the control latches decides whether an instruction is next. -/
theorem ready_of_control (hready : m.Ready) (h : m'.control = m.control) : m'.Ready := by
  obtain ⟨hhalted, hnmi, hquiet⟩ := hready
  have hiff1 : m'.iff1 = m.iff1 := congrArg Control.iff1 h
  have hpending : m'.pending = m.pending := congrArg Control.pending h
  refine ⟨(congrArg Control.halted h).trans hhalted,
    (congrArg Control.nmiPending h).trans hnmi, fun hopen => ?_⟩
  rw [hpending]
  exact hquiet (hiff1 ▸ hopen)

/-- Fetches are counted modulo 128, and the top bit stays. -/
theorem toNat_r_refresh (m : Machine μ δ) (fetches : Nat) :
    (m.refresh fetches).regs.r.toNat =
      m.regs.r.toNat / 128 * 128 + (m.regs.r.toNat + fetches) % 128 := by
  have hsum : (m.regs.r + UInt8.ofNat fetches).toNat % 128 =
      (m.regs.r.toNat + fetches) % 128 := by
    rw [UInt8.toNat_add, UInt8.toNat_ofNat']
    omega
  exact (toNat_topBit_or _ _).trans (congrArg _ hsum)

/-! ## Rounds -/

/-- The addresses that a block passes through. -/
theorem Block.next_travel (b : Block) (a : Word) (n : Nat) :
    Block.next b (travel b.down a n) = travel b.down a (n + 1) :=
  (travel_succ b.down a n).symm

/-- A repeating block instruction that is not done goes back. -/
theorem again_of_more {b : Block} (hrepeating : b.repeating = true) :
    m.again b true = ⟨m.jump (m.regs.pc - 2), .ok Cycles.blockRepeat⟩ := by
  unfold again
  rw [hrepeating]
  rfl

/-- The last round is free of further cost and goes on behind the instruction. -/
theorem again_of_done (b : Block) : m.again b false = .free m := by
  unfold again
  rw [Bool.and_false]
  rfl

/-- The machine once it has fetched the block instruction at its program
counter. -/
def pastBlock (m : Machine μ δ) : Machine μ δ := (m.jump (m.regs.pc + 2)).refresh 2

/-- A round that has just been fetched finds in BC whether another follows. -/
theorem bc_bne_zero {i : Nat} (hbc : m'.regs.bc = m.regs.bc - UInt16.ofNat i)
    (hi : i < rounds m.regs.bc) :
    (m'.pastBlock.regs.bc - 1 != 0) = decide (i + 1 < rounds m.regs.bc) := by
  show (m'.regs.bc - 1 != 0) = _
  rw [hbc]
  exact count_bne_zero hi

variable [Mapper μ Byte]

/-- The block instruction stands at the program counter, in a memory that reads
do not change. -/
structure AtBlock (m : Machine μ δ) (b : Block) : Prop where
  quiet : m.memory.Quiet
  prefixed : m.memory.value m.regs.pc = 0xed
  opcode : m.memory.value (m.regs.pc + 1) = b.opcode

/-- It has not been written over, and is next again. -/
theorem AtBlock.of_unchanged {b : Block} (h : m.AtBlock b) (hquiet : m'.memory.Quiet)
    (hpc : m'.regs.pc = m.regs.pc)
    (hfirst : m'.memory.value m.regs.pc = m.memory.value m.regs.pc)
    (hsecond : m'.memory.value (m.regs.pc + 1) = m.memory.value (m.regs.pc + 1)) :
    m'.AtBlock b := by
  refine ⟨hquiet, ?_, ?_⟩
  · rw [hpc, hfirst]
    exact h.prefixed
  · rw [hpc, hsecond]
    exact h.opcode

/-- The processor reads the instruction that stands there. -/
theorem AtBlock.fetched {b : Block} (h : m.AtBlock b) :
    m.fetched = .ok ⟨.block b, .extended, b.opcode, 2, 2⟩ := by
  have hfirst : m.memory.stream m.regs.pc 0 = 0xed :=
    (m.memory.stream_zero _).trans h.prefixed
  have hsecond : m.memory.stream m.regs.pc 1 = b.opcode := (h.quiet.stream _ 1).trans h.opcode
  unfold Machine.fetched decode
  simp only [hfirst, hsecond, decodeExtended_opcode]

variable [Observer δ Byte Byte]

/-- Fetching the instruction leaves no trace but in the two registers that count
its cells, so that the step is a round and nothing else. -/
theorem step_of_atBlock {b : Block} (hready : m.Ready) (hat : m.AtBlock b) :
    m.step = (m.pastBlock.blockRound b).plus 16 := by
  rw [step_of_fetched (action_of_ready hready) hat.fetched, advance_of_quiet hat.quiet]
  rfl

/-! ## Loops -/

section Loop

variable {b : Block} {next : Machine μ δ}

/-- A round that is not the last ends where it began. -/
theorem step_of_goes_on (hready : m.Ready) (hat : m.AtBlock b) (hrepeating : b.repeating = true)
    (hround : m.pastBlock.blockRound b = next.again b true)
    (hpc : next.regs.pc = m.regs.pc + 2) :
    m.step = ⟨next.jump m.regs.pc, .ok 21⟩ := by
  rw [step_of_atBlock hready hat, hround, again_of_more hrepeating, hpc, UInt16.add_sub_cancel]
  rfl

/-- The last round costs 16 cycles and leaves the instruction. -/
theorem step_of_done (hready : m.Ready) (hat : m.AtBlock b)
    (hround : m.pastBlock.blockRound b = next.again b false) :
    m.step = ⟨next, .ok 16⟩ := by
  rw [step_of_atBlock hready hat, hround, again_of_done]
  rfl

/-- A loop of `n` rounds and an invariant of it: `I i` holds once `i` of them are
done, wherever the program counter stands then. -/
structure Rounds (m : Machine μ δ) (b : Block) (n : Nat) (I : Nat → Machine μ δ → Prop) :
    Prop where
  start : I 0 m
  jump : ∀ i m' address, I i m' → I i (jump m' address)
  /-- The instruction is still there and runs, and goes back but from the last
  round. -/
  round : ∀ i m', i < n → I i m' → m'.regs.pc = m.regs.pc →
    m'.Ready ∧ m'.AtBlock b ∧ ∃ next,
      m'.pastBlock.blockRound b = next.again b (decide (i + 1 < n)) ∧
      next.regs.pc = m'.regs.pc + 2 ∧ I (i + 1) next

/-- The loop has been left after exactly `n` steps. -/
structure Completes (m : Machine μ δ) (n : Nat) (I : Nat → Machine μ δ → Prop) : Prop where
  stays : ∀ i < n, (Core.steps m i).state.regs.pc = m.regs.pc
  leaves : (Core.steps m n).state.regs.pc = m.regs.pc + 2
  cost : (Core.steps m n).result = .ok (21 * (n - 1) + 16)
  holds : ∀ i ≤ n, I i (Core.steps m i).state

variable {n : Nat} {I : Nat → Machine μ δ → Prop}

/-- Before each of its rounds the loop is at its instruction. -/
theorem Rounds.steps (h : m.Rounds b n I) (hrepeating : b.repeating = true) :
    ∀ i < n, (Core.steps m i).result = .ok (21 * i) ∧
      I i (Core.steps m i).state ∧ (Core.steps m i).state.regs.pc = m.regs.pc := by
  have hround : ∀ i (m' : Machine μ δ), i < n - 1 → I i m' ∧ m'.regs.pc = m.regs.pc →
      (Core.step m').result = .ok 21 ∧
        I (i + 1) (Core.step m').state ∧ (Core.step m').state.regs.pc = m.regs.pc := by
    intro i m' hi ⟨hinv, hpc⟩
    obtain ⟨hready, hat, next, hround, hnext, hinv'⟩ := h.round i m' (by omega) hinv hpc
    rw [decide_eq_true (by omega)] at hround
    have hstep : Core.step m' = _ := step_of_goes_on hready hat hrepeating hround hnext
    rw [hstep]
    exact ⟨rfl, h.jump _ _ _ hinv', hpc⟩
  intro i hi
  exact Core.steps_rounds hround ⟨h.start, rfl⟩ i (by omega)

/-- A repeating instruction makes all its rounds, one step for each: 21 cycles for a
round that goes back, and 16 for the last. -/
theorem Rounds.run (h : m.Rounds b n I) (hrepeating : b.repeating = true) (hpos : 0 < n) :
    m.Completes n I := by
  obtain ⟨k, rfl⟩ : ∃ k, n = k + 1 := Nat.exists_eq_add_one.mpr hpos
  obtain ⟨hcost, hinv, hpc⟩ := h.steps hrepeating k (Nat.lt_succ_self k)
  -- the last round is the only one that does not go back
  obtain ⟨hready, hat, next, hround, hnext, hinv'⟩ := h.round k _ (Nat.lt_succ_self k) hinv hpc
  rw [decide_eq_false (Nat.lt_irrefl _)] at hround
  have hstep : Core.step (Core.steps m k).state = _ := step_of_done hready hat hround
  have hend : Core.steps m (k + 1) = ⟨next, .ok (16 + 21 * k)⟩ := by
    rw [Core.steps_succ hcost, hstep]
    rfl
  refine ⟨fun i hi => (h.steps hrepeating i hi).2.2, ?_, ?_, ?_⟩
  · rw [hend, ← hpc]
    exact hnext
  · rw [hend, Nat.add_sub_cancel, Nat.add_comm]
  · intro i hi
    rcases Nat.lt_or_eq_of_le hi with hlt | rfl
    · exact (h.steps hrepeating i hlt).2.1
    · rw [hend]
      exact hinv'

end Loop

/-! ## A machine at a block instruction -/

/-- A machine that is about to run the block instruction at the start of its
memory. One of the other cells holds `v`. -/
def specimen (b : Block) (regs : Registers) (ports : Ports (Recorder Byte Byte))
    (address : Word) (v : Byte) : Machine Empty (Recorder Byte Byte) where
  regs := regs
  flags := {}
  iff1 := false
  iff2 := false
  mode := .zero
  halted := false
  stopped := false
  pending := none
  nmiPending := false
  initialPc := 0
  ports := ports
  memory := (((Memory.zeros 65536).write 0 0xed).write 1 b.opcode).write address v

section Specimen

variable {b : Block} {regs : Registers} {ports : Ports (Recorder Byte Byte)} {address : Word}
  {v : Byte}

theorem plain_specimen : (specimen b regs ports address v).memory.Plain :=
  ((Memory.plain_zeros.write 0 0xed).write 1 b.opcode).write address v

/-- Every cell but three is zero. -/
theorem value_specimen (a : Word) : (specimen b regs ports address v).memory.value a =
    if address = a then v else if 1 = a then b.opcode else if 0 = a then 0xed else 0 := by
  have hzeros : (Memory.zeros 65536 : Memory Empty Byte).Plain := Memory.plain_zeros
  unfold specimen
  rw [((hzeros.write 0 0xed).write 1 b.opcode).value_write, (hzeros.write 0 0xed).value_write,
    hzeros.value_write, Memory.value_zeros]
  rfl

/-- Nothing is requested of the specimen, and it is awake. -/
theorem ready_specimen : (specimen b regs ports address v).Ready := ⟨rfl, rfl, fun _ => rfl⟩

/-- The specimen stands at its instruction, unless the byte to be moved overwrites
it. -/
theorem atBlock_specimen (hpc : regs.pc = 0) (hfirst : address ≠ 0) (hsecond : address ≠ 1) :
    (specimen b regs ports address v).AtBlock b := by
  refine ⟨plain_specimen.quiet, ?_, ?_⟩
  · show (specimen b regs ports address v).memory.value regs.pc = _
    rw [hpc, value_specimen, if_neg hfirst, if_neg (by decide), if_pos rfl]
  · show (specimen b regs ports address v).memory.value (regs.pc + 1) = _
    rw [hpc, UInt16.zero_add, value_specimen, if_neg hsecond, if_pos rfl]

end Specimen

end Machine

end Retrocore.Z80
