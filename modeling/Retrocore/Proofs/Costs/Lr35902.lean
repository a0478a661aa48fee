import Retrocore.Lr35902.Step
import Retrocore.Proofs.Costs.Bounds

/-!
# What a step of the LR35902 costs

The table of costs is empty where the root table of instructions is: at the
prefix byte and in eleven holes. So the bounds are of the opcodes that mean
something, and `rootSurcharge` says by the fields of an opcode whether it does
and how much a branch may add.
-/

namespace Retrocore.Lr35902

/-- The most that an instruction adds to its base cost. -/
def Instruction.surcharge : Instruction → Nat
  | .jr (some _) _ => Cycles.jrTaken
  | .jp (some _) _ => Cycles.jpTaken
  | .call (some _) _ => Cycles.callTaken
  | .ret (some _) => Cycles.retTaken
  | _ => 0

/-- No more than a CALL that is taken adds. -/
theorem Instruction.surcharge_le (i : Instruction) : i.surcharge ≤ 12 := by
  unfold surcharge
  split <;> decide

namespace Machine

variable {μ : Type} [Mapper μ Byte]

/-- An instruction adds its surcharge at most, whichever way it goes. -/
theorem extra_le (m : Machine μ) (i : Instruction) : (m.execute i).2 ≤ i.surcharge := by
  cases i with
  | jr when? d =>
    simp only [execute]
    split
    next => cases when? <;> exact Nat.le_refl _
    next => exact Nat.zero_le _
  | jp when? address =>
    simp only [execute]
    split
    next => cases when? <;> exact Nat.le_refl _
    next => exact Nat.zero_le _
  | call when? address =>
    simp only [execute]
    split
    next => cases when? <;> exact Nat.le_refl _
    next => exact Nat.zero_le _
  | ret when? =>
    simp only [execute]
    split
    next => cases when? <;> exact Nat.le_refl _
    next => exact Nat.zero_le _
  | _ => exact Nat.zero_le _

end Machine

/-! ## The root table -/

/-- The most that a root instruction adds, by the fields of its opcode; none if
the opcode has no instruction. -/
def Cycles.rootSurcharge (f : Fields) : Option Nat :=
  match f.x, f.z with
  | 0, 0 => some 4
  | 0, _ | 1, _ | 2, _ => some 0
  | _, 0 => some (if f.y < 4 then 12 else 0)
  | _, 2 => some 4
  | _, 3 => if f.y = 0 ∨ 6 ≤ f.y then some 0 else none
  | _, 4 => if f.y < 4 then some 12 else none
  | _, 5 => if f.q = 0 ∨ f.p = 0 then some 0 else none
  | _, _ => some 0

/-- What an instruction may add can be told from the fields of its opcode. -/
theorem decodeOpcode_surcharge {opcode : Byte} {s : Stream Byte} {i : Instruction}
    {operands : Nat} (h : decodeOpcode opcode s = some (i, operands)) :
    ∃ n, Cycles.rootSurcharge (Fields.of opcode) = some n ∧ i.surcharge ≤ n := by
  have hy : (Fields.of opcode).y < 8 := Nat.mod_lt _ (by decide)
  unfold decodeOpcode at h
  dsimp only at h
  generalize Fields.of opcode = f at h hy
  obtain ⟨x, y, z, p, q⟩ := f
  -- case by case as the decoder goes; the holes are where it gives up
  match x, z with
  | 0, 0 =>
    refine ⟨4, rfl, ?_⟩
    simp only at h
    split at h
    next => cases h; exact Nat.zero_le 4
    next => cases h; exact Nat.zero_le 4
    next => cases h; exact Nat.zero_le 4
    next => cases h; exact Nat.zero_le 4
    next => cases h; exact Nat.le_refl 4
  | 0, 1 | 0, 2 | 0, 3 | 0, _ + 7 =>
    refine ⟨0, rfl, ?_⟩
    simp only at h
    split at h <;> cases h <;> exact Nat.le_refl 0
  | 0, 4 | 0, 5 | 0, 6 =>
    cases h
    exact ⟨0, rfl, Nat.le_refl 0⟩
  | 1, _ =>
    refine ⟨0, rfl, ?_⟩
    simp only at h
    split at h <;> cases h <;> exact Nat.le_refl 0
  | 2, _ =>
    cases h
    exact ⟨0, rfl, Nat.le_refl 0⟩
  | _ + 3, 0 =>
    simp only at h
    split at h
    next => cases h; exact ⟨0, rfl, Nat.le_refl 0⟩
    next => cases h; exact ⟨0, rfl, Nat.le_refl 0⟩
    next => cases h; exact ⟨0, rfl, Nat.le_refl 0⟩
    next => cases h; exact ⟨0, rfl, Nat.le_refl 0⟩
    next h4 h5 h6 h7 =>
      have hlt : y < 4 := by
        have hy : y < 8 := hy
        have hother : y ≠ 4 ∧ y ≠ 5 ∧ y ≠ 6 ∧ y ≠ 7 := ⟨h4, h5, h6, h7⟩
        omega
      cases h
      exact ⟨12, congrArg some (if_pos hlt), Nat.le_refl 12⟩
  | _ + 3, 1 =>
    refine ⟨0, rfl, ?_⟩
    simp only at h
    split at h
    next => cases h; exact Nat.le_refl 0
    next => split at h <;> cases h <;> exact Nat.le_refl 0
  | _ + 3, 2 =>
    refine ⟨4, rfl, ?_⟩
    simp only at h
    split at h
    next => cases h; exact Nat.zero_le 4
    next => cases h; exact Nat.zero_le 4
    next => cases h; exact Nat.zero_le 4
    next => cases h; exact Nat.zero_le 4
    next => cases h; exact Nat.le_refl 4
  | _ + 3, 3 =>
    simp only at h
    split at h
    next => cases h; exact ⟨0, rfl, Nat.le_refl 0⟩
    next => cases h; exact ⟨0, rfl, Nat.le_refl 0⟩
    next => cases h; exact ⟨0, rfl, Nat.le_refl 0⟩
    next => cases h
  | _ + 3, 4 =>
    simp only at h
    split at h
    next hlt => cases h; exact ⟨12, if_pos hlt, Nat.le_refl 12⟩
    next => cases h
  | _ + 3, 5 =>
    simp only at h
    split at h
    next hq => cases h; exact ⟨0, if_pos (.inl hq), Nat.le_refl 0⟩
    next =>
      split at h
      next hp => cases h; exact ⟨0, if_pos (.inr hp), Nat.le_refl 0⟩
      next => cases h
  | _ + 3, 6 | _ + 3, _ + 7 =>
    cases h
    exact ⟨0, rfl, Nat.le_refl 0⟩

namespace Cycles

/-- Every opcode has a row of its own, holes included. -/
theorem rootTable_size : rootTable.size = 256 := by
  decide +kernel

/-- An opcode with an instruction costs something, but not much, whatever the
instruction adds. -/
theorem root_bounds {opcode : Byte} {n : Nat} (h : rootSurcharge (Fields.of opcode) = some n) :
    1 ≤ root opcode ∧ root opcode + n ≤ 24 :=
  forall_cost rootTable_size (P := fun cost opcode =>
    ∀ n ∈ rootSurcharge (Fields.of opcode), 1 ≤ cost ∧ cost + n ≤ 24)
    (by decide +kernel) opcode n h

/-- The dear ones work on memory cells, and none of these branches. -/
theorem bits_bounds (i : Instruction) : 8 ≤ bits i ∧ bits i + i.surcharge ≤ 24 := by
  have hbit : 8 ≤ 12 ∧ 12 + 0 ≤ 24 := by decide
  have hcell : 8 ≤ 16 ∧ 16 + 0 ≤ 24 := by decide
  have hsurcharge := i.surcharge_le
  unfold bits
  split
  next => exact hbit
  next => exact hcell
  next => exact hcell
  next => exact hcell
  next => exact hcell
  next => omega

end Cycles

/-! ## Steps -/

/-- Whatever is decoded costs something, but not much. -/
theorem decode_bounds {s : Stream Byte} {d : Decoded Instruction} (h : decode s = .ok d) :
    1 ≤ Cycles.of d ∧ Cycles.of d + d.instruction.surcharge ≤ 24 := by
  unfold decode at h
  split at h
  next =>
    cases h
    obtain ⟨hlow, hhigh⟩ := Cycles.bits_bounds (decodeBits (s 1))
    exact ⟨Nat.le_trans (by decide) hlow, hhigh⟩
  next =>
    split at h
    next i operands hopcode =>
      cases h
      obtain ⟨n, hn, hsurcharge⟩ := decodeOpcode_surcharge hopcode
      obtain ⟨hlow, hhigh⟩ := Cycles.root_bounds hn
      exact ⟨hlow, Nat.le_trans (Nat.add_le_add_left hsurcharge _) hhigh⟩
    next => cases h

namespace Machine

variable {μ : Type} [Mapper μ Byte]

/-- A step costs what the table says, and the surcharge at most. -/
theorem costs_run (m : Machine μ) (d : Decoded Instruction) :
    (m.run d).CostsBetween (Cycles.of d) (Cycles.of d + d.instruction.surcharge) :=
  .ok ⟨Nat.le_add_right _ _, Nat.add_le_add_left (extra_le _ _) _⟩

/-- So every step of the LR35902 that succeeds is priced. -/
theorem priced : Core.Priced (Machine μ) := by
  intro m
  show m.step.CostsBetween 1 24
  unfold step
  split
  next => exact .ok (by decide)
  next => exact .ok (by decide)
  next =>
    split
    next d hfetched =>
      obtain ⟨hlow, hhigh⟩ := decode_bounds hfetched
      exact (costs_run _ d).mono hlow hhigh
    next => exact .error

end Machine

end Retrocore.Lr35902
