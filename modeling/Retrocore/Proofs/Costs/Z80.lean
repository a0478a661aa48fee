import Retrocore.Proofs.Costs.Bounds
import Retrocore.Z80.Step

/-!
# What a step of the Z80 costs

The cost of an instruction is put together: an entry of the root table or a cost
by kind, the working out of an indexed address, and what a branch that is taken
or another round of a block adds. The table has nothing for the four prefix
bytes, and no instruction is looked up there (`root_pos`). Nor do the dearest
entries go with the dearest additions: `root_bounds` bounds their sum by the fields
of the opcode.
-/

namespace Retrocore.Z80

/-- The most that an instruction adds to its base cost. -/
def Instruction.surcharge : Instruction → Nat
  | .jr (some _) _ | .djnz _ => Cycles.jrTaken
  | .call (some _) _ => Cycles.callTaken
  | .ret (some _) => Cycles.retTaken
  | .block b => if b.repeating then Cycles.blockRepeat else 0
  | _ => 0

/-- No more than a CALL that is taken adds. -/
theorem Instruction.surcharge_le (i : Instruction) : i.surcharge ≤ 7 := by
  unfold surcharge
  split
  next => decide
  next => decide
  next => decide
  next => decide
  next => split <;> decide
  next => exact Nat.zero_le 7

/-! ## Instructions -/

namespace Machine

variable {μ δ : Type}

/-- What costs nothing is between nothing and nothing. -/
theorem costs_free (m : Machine μ δ) : (Ran.free m).CostsBetween 0 0 :=
  .fixed

/-- A round that goes back costs what a repeating instruction may. -/
theorem costs_again (m : Machine μ δ) (b : Block) (more : Bool) :
    (m.again b more).CostsBetween 0 (Instruction.block b).surcharge := by
  unfold again
  cases hrepeating : b.repeating with
  | false => exact .ok ⟨Nat.zero_le _, Nat.zero_le _⟩
  | true =>
    have hround : (Instruction.block b).surcharge = Cycles.blockRepeat := by
      simp only [Instruction.surcharge, hrepeating, if_true]
    rw [hround]
    split
    next => exact .ok ⟨Nat.zero_le _, Nat.le_refl _⟩
    next => exact .ok ⟨Nat.zero_le _, Nat.zero_le _⟩

variable [Mapper μ Byte] [Observer δ Byte Byte]

/-- Nothing else in a round costs extra. -/
theorem costs_blockRound (m : Machine μ δ) (b : Block) :
    (m.blockRound b).CostsBetween 0 (Instruction.block b).surcharge := by
  unfold blockRound
  split
  next => exact costs_again _ b _
  next => exact costs_again _ b _
  next =>
    unfold blockIn
    split
    next => exact .error
    next => exact costs_again _ b _
  next =>
    simp only [blockOut]
    split
    next => exact .error
    next => exact costs_again _ b _

/-- An instruction adds its surcharge at most, whichever way it goes. -/
theorem costs_execute (m : Machine μ δ) (i : Instruction) :
    (m.execute i).CostsBetween 0 i.surcharge := by
  cases i with
  | jr when? d =>
    simp only [execute]
    split
    next => cases when? <;> exact .ok ⟨Nat.zero_le _, Nat.le_refl _⟩
    next => exact .ok ⟨Nat.zero_le _, Nat.zero_le _⟩
  | djnz d =>
    simp only [execute]
    split
    next => exact .ok ⟨Nat.zero_le _, Nat.le_refl _⟩
    next => exact .ok ⟨Nat.zero_le _, Nat.zero_le _⟩
  | call when? address =>
    simp only [execute]
    split
    next => cases when? <;> exact .ok ⟨Nat.zero_le _, Nat.le_refl _⟩
    next => exact .ok ⟨Nat.zero_le _, Nat.zero_le _⟩
  | ret when? =>
    simp only [execute]
    split
    next => cases when? <;> exact .ok ⟨Nat.zero_le _, Nat.le_refl _⟩
    next => exact .ok ⟨Nat.zero_le _, Nat.zero_le _⟩
  | block b => exact costs_blockRound m b
  | inImm port =>
    simp only [execute]
    split
    next => exact costs_free _
    next => exact .error
  | inC dst =>
    simp only [execute]
    split
    next => exact costs_free _
    next => exact .error
  | outImm port => exact .map
  | outC src => exact .map
  | _ => exact costs_free _

end Machine

/-! ## The root table -/

/-- The most that the address and the branch of a root instruction add, by the
fields of its opcode. -/
def Cycles.rootSurcharge (f : Fields) : Nat :=
  match f.x, f.z with
  | 0, 0 | 0, 6 => 5
  | 0, 4 | 0, 5 => 8
  | 0, _ => 0
  | 1, _ | 2, _ => 8
  | _, 0 => 6
  | _, 4 => 7
  | _, _ => 0

/-- An indexed cell is at most eight cycles dearer. -/
theorem Cycles.indexing_le (i : Instruction) : Cycles.indexing i ≤ 8 := by
  unfold Cycles.indexing
  split <;> decide

/-- An immediate operand is read while the address is worked out. -/
theorem Cycles.indexing_imm_le (dst : Place) (v : Byte) :
    Cycles.indexing (.ld dst (.imm v)) ≤ 5 := by
  cases dst with
  | idx index d => exact Nat.le_refl 5
  | _ => exact Nat.zero_le 5

/-- What an entry of the root table may add can be told from the fields of the opcode,
without the operands. -/
theorem decodeRoot_surcharge (index : Option Index) (opcode : Byte) (s : Stream Byte) :
    Cycles.indexing (decodeRoot index opcode s).1 + (decodeRoot index opcode s).1.surcharge ≤
      Cycles.rootSurcharge (Fields.of opcode) := by
  have hindexing := Cycles.indexing_le
  unfold decodeRoot
  dsimp only
  generalize Fields.of opcode = f
  obtain ⟨x, y, z, p, q⟩ := f
  -- case by case as the decoder goes; what is looked for are branches and indexed cells
  match x, z with
  | 0, 0 =>
    simp only
    split
    next => exact Nat.zero_le 5
    next => exact Nat.zero_le 5
    next => exact Nat.le_refl 5
    next => exact Nat.zero_le 5
    next => exact Nat.le_refl 5
  | 0, 1 | 0, 2 | 0, 3 | 0, _ + 7 =>
    simp only
    split <;> exact Nat.le_refl 0
  | 0, 4 | 0, 5 => exact hindexing _
  | 0, 6 => exact Cycles.indexing_imm_le _ _
  | 1, _ =>
    simp only
    split
    next => exact Nat.zero_le 8
    all_goals exact hindexing _
  | 2, _ => exact hindexing _
  | _ + 3, 0 => exact Nat.le_refl 6
  | _ + 3, 1 | _ + 3, 5 =>
    simp only
    split
    next => exact Nat.le_refl 0
    next => split <;> exact Nat.le_refl 0
  | _ + 3, 3 =>
    simp only
    split <;> exact Nat.le_refl 0
  | _ + 3, 4 => exact Nat.le_refl 7
  | _ + 3, 2 | _ + 3, 6 | _ + 3, _ + 7 => exact Nat.le_refl 0

namespace Cycles

/-- Every opcode has a row of its own. -/
theorem rootTable_size : rootTable.size = 256 := by
  decide +kernel

/-- Nothing is free but the prefix bytes, and with all that may come on top
nothing is dearer than 24 cycles. -/
theorem root_bounds (opcode : Byte) :
    (root opcode = 0 → opcode ∈ ([0xcb, 0xdd, 0xed, 0xfd] : List Byte)) ∧
      root opcode + 4 + rootSurcharge (Fields.of opcode) ≤ 24 :=
  forall_cost rootTable_size (P := fun cost opcode =>
    (cost = 0 → opcode ∈ ([0xcb, 0xdd, 0xed, 0xfd] : List Byte)) ∧
      cost + 4 + rootSurcharge (Fields.of opcode) ≤ 24) (by decide +kernel) opcode

/-- The table has zeros at the prefixes, which are no instructions. -/
theorem root_pos {opcode : Byte} (hcb : opcode ≠ 0xcb) (hdd : opcode ≠ 0xdd)
    (hed : opcode ≠ 0xed) (hfd : opcode ≠ 0xfd) : 1 ≤ root opcode := by
  rw [Nat.one_le_iff_ne_zero]
  intro hfree
  have hprefix := (root_bounds opcode).1 hfree
  simp only [List.mem_cons, List.not_mem_nil, or_false] at hprefix
  rcases hprefix with h | h | h | h
  · exact hcb h
  · exact hdd h
  · exact hed h
  · exact hfd h

/-! ## The other tables -/

/-- A bit instruction costs eight cycles on a register, and more on a cell. -/
theorem bits_bounds (i : Instruction) : 8 ≤ bits i ∧ bits i ≤ 15 := by
  unfold bits
  split <;> decide

/-- The dearest is a block that goes on. Loads and stores of pairs add
nothing. -/
theorem extended_bounds (i : Instruction) : 8 ≤ extended i ∧ extended i + i.surcharge ≤ 23 := by
  have hsurcharge := i.surcharge_le
  cases i with
  | storePair address p =>
    show 8 ≤ 20 ∧ 20 + 0 ≤ 23
    decide
  | loadPair p address =>
    show 8 ≤ 20 ∧ 20 + 0 ≤ 23
    decide
  | rld => decide
  | rrd => decide
  | _ =>
    unfold extended
    dsimp only
    omega

/-- On an indexed cell it costs twenty or more. -/
theorem indexedBits_bounds (opcode : Byte) (target : Place) (copy : Option Reg) :
    20 ≤ indexedBits (decodeBits opcode target copy) ∧
      indexedBits (decodeBits opcode target copy) +
        (decodeBits opcode target copy).surcharge ≤ 23 := by
  have hbounds : (20 ≤ 20 ∧ 20 + 0 ≤ 23) ∧ 20 ≤ 23 ∧ 23 + 0 ≤ 23 := by
    decide
  unfold decodeBits
  dsimp only
  split
  next => exact hbounds.2
  next => exact hbounds.1
  next => exact hbounds.2
  next => exact hbounds.2

end Cycles

/-! ## Decoded instructions -/

/-- Behind an index prefix, no second prefix is looked up in the table. -/
theorem decodeIndexed_bounds {index : Index} {s : Stream Byte} {d : Decoded Instruction}
    (h : decodeIndexed index s = .ok d) :
    1 ≤ Cycles.of d ∧ Cycles.of d + d.instruction.surcharge ≤ 24 := by
  unfold decodeIndexed at h
  split at h
  next =>
    cases h
    obtain ⟨hlow, hhigh⟩ := Cycles.indexedBits_bounds (s 2) (.idx index (s 1)) _
    exact ⟨Nat.le_trans (by decide) hlow, Nat.le_trans hhigh (by decide)⟩
  next => cases h
  next => cases h
  next => cases h
  next hcb hdd hed hfd =>
    -- the prefix costs 4 and the address up to 8, both on top of the root entry
    have hsurcharge := decodeRoot_surcharge (some index) (s 0) (s.drop 1)
    have hpos := Cycles.root_pos hcb hdd hed hfd
    have hle := (Cycles.root_bounds (s 0)).2
    cases hroot : decodeRoot (some index) (s 0) (s.drop 1) with
    | mk i operands =>
      rw [hroot] at h hsurcharge
      cases h
      show 1 ≤ Cycles.root (s 0) + 4 + Cycles.indexing i ∧
        Cycles.root (s 0) + 4 + Cycles.indexing i + i.surcharge ≤ 24
      dsimp only at hsurcharge
      omega

/-- Whatever is decoded costs something, but not much. -/
theorem decode_bounds {s : Stream Byte} {d : Decoded Instruction} (h : decode s = .ok d) :
    1 ≤ Cycles.of d ∧ Cycles.of d + d.instruction.surcharge ≤ 24 := by
  unfold decode at h
  split at h
  next =>
    cases h
    obtain ⟨hlow, hhigh⟩ := Cycles.bits_bounds
      (decodeBits (s 1) (Place.ofCode none 0 ((s 1) % 8).toNat) none)
    have hsurcharge := Instruction.surcharge_le
      (decodeBits (s 1) (Place.ofCode none 0 ((s 1) % 8).toNat) none)
    exact ⟨Nat.le_trans (by decide) hlow,
      Nat.le_trans (Nat.add_le_add hhigh hsurcharge) (by decide)⟩
  next =>
    split at h
    next i operands _ =>
      cases h
      obtain ⟨hlow, hhigh⟩ := Cycles.extended_bounds i
      exact ⟨Nat.le_trans (by decide) hlow, Nat.le_trans hhigh (by decide)⟩
    next => cases h
  next => exact decodeIndexed_bounds h
  next => exact decodeIndexed_bounds h
  next hcb hed hdd hfd =>
    have hsurcharge := decodeRoot_surcharge none (s 0) (s.drop 1)
    have hpos := Cycles.root_pos hcb hdd hed hfd
    have hle := (Cycles.root_bounds (s 0)).2
    cases hroot : decodeRoot none (s 0) (s.drop 1) with
    | mk i operands =>
      rw [hroot] at h hsurcharge
      cases h
      show 1 ≤ Cycles.root (s 0) ∧ Cycles.root (s 0) + i.surcharge ≤ 24
      dsimp only at hsurcharge
      omega

/-! ## Steps -/

namespace Machine

variable {μ δ : Type} [Mapper μ Byte] [Observer δ Byte Byte]

/-- Servicing costs thirteen cycles in the modes zero and one, and nineteen in mode
two. -/
theorem costs_service (m : Machine μ δ) (byte : Byte) : (m.service byte).CostsBetween 13 19 := by
  unfold service
  dsimp only
  split
  next =>
    split
    next => exact Ran.CostsBetween.costing.mono (by decide) (by decide)
    next => exact .error
  next => exact .ok (by decide)
  next => exact .ok (by decide)

/-- So every step of the Z80 that succeeds is priced. -/
theorem priced : Core.Priced (Machine μ δ) := by
  intro m
  show m.step.CostsBetween 1 24
  unfold step
  split
  next => exact .ok (by decide)
  next => exact (costs_service m _).mono (by decide) (by decide)
  next => exact .ok (by decide)
  next =>
    split
    next d hfetched =>
      obtain ⟨hlow, hhigh⟩ := decode_bounds hfetched
      have hran := (costs_execute ((m.advance d.length).refresh d.fetches) d.instruction).plus
        (Cycles.of d)
      exact hran.mono (by omega) (by omega)
    next => exact .error

end Machine

end Retrocore.Z80
