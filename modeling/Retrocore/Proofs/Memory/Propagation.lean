import Retrocore.Proofs.Memory.Reads

/-!
# Copying cell by cell

`Memory.stored` writes to a run of cells, upwards or downwards, one after the
other. `Memory.copied` takes what it writes from another run, from the memory as
the copies before have left it. Where source and target overlap, a cell may be
copied that was itself copied just before.

`value_copied` says what this comes to, however the two lie to each other: if the
target is `d` cells ahead of the source, the first `d` cells of the source are
repeated all over the target. Without an overlap this is an exact copy
(`value_copied_of_disjoint`).
-/

namespace Retrocore

/-! ## Addresses -/

/-- The address `n` cells further on, upwards or downwards. -/
def travel (down : Bool) (a : Word) (n : Nat) : Word :=
  if down then a - UInt16.ofNat n else a + UInt16.ofNat n

/-- How far ahead of an address another one is, upwards or downwards. -/
def distance (down : Bool) (a b : Word) : Nat := if down then (a - b).toNat else (b - a).toNat

@[simp] theorem travel_zero (down : Bool) (a : Word) : travel down a 0 = a := by
  cases down <;> simp [travel]

theorem travel_succ (down : Bool) (a : Word) (n : Nat) :
    travel down a (n + 1) = if down then travel down a n - 1 else travel down a n + 1 := by
  have hone : UInt16.ofNat (n + 1) = UInt16.ofNat n + 1 := UInt16.ofNat_add n 1
  unfold travel
  rw [hone]
  cases down with
  | false => exact (UInt16.add_assoc a _ 1).symm
  | true =>
    show a - (UInt16.ofNat n + 1) = a - UInt16.ofNat n - 1
    grind

/-- Addresses agree if they are reached by numbers of steps that agree modulo
the size of the address space. -/
theorem travel_eq_travel_iff (down : Bool) (a : Word) (i j : Nat) :
    travel down a i = travel down a j ↔ i % 65536 = j % 65536 := by
  have ha := a.toNat_lt
  rw [← UInt16.toNat_inj]
  cases down <;>
    simp only [travel, Bool.false_eq_true, if_false, if_true, UInt16.toNat_add,
      UInt16.toNat_sub, UInt16.toNat_ofNat'] <;>
    omega

/-- Less than once round, no address is met twice. -/
theorem travel_inj {down : Bool} {a : Word} {i j : Nat} (hi : i < 65536) (hj : j < 65536)
    (h : travel down a i = travel down a j) : i = j := by
  have hmod := (travel_eq_travel_iff down a i j).mp h
  omega

/-- What is reached from `b` is reached from `a` over the distance between
them. -/
theorem travel_distance (down : Bool) (a b : Word) (n : Nat) :
    travel down b n = travel down a (distance down a b + n) := by
  have ha := a.toNat_lt
  have hb := b.toNat_lt
  rw [← UInt16.toNat_inj]
  cases down <;>
    simp only [travel, distance, Bool.false_eq_true, if_false, if_true, UInt16.toNat_add,
      UInt16.toNat_sub, UInt16.toNat_ofNat'] <;>
    omega

theorem distance_lt (down : Bool) (a b : Word) : distance down a b < 65536 := by
  unfold distance
  split <;> exact UInt16.toNat_lt _

namespace Memory

variable {μ κ : Type} [Inhabited κ] [Mapper μ κ]

/-! ## Plain memories -/

/-- A memory that fills the address space, without a mapper. -/
structure Plain (m : Memory μ κ) : Prop where
  size : m.size = 65536
  unmapped : m.mapper = none

omit [Mapper μ κ] in
/-- A blank memory is plain. -/
theorem plain_zeros : (zeros 65536 : Memory μ κ).Plain := ⟨Array.size_replicate, rfl⟩

@[simp] theorem value_zeros (size : Nat) (a : Word) :
    (zeros size : Memory μ κ).value a = default := by
  show (Array.replicate size default).getD _ default = _
  rw [Array.getD_eq_getD_getElem?, Array.getElem?_replicate]
  split <;> rfl

variable {m : Memory μ κ}

/-- Without a mapper reads change nothing. -/
theorem Plain.quiet (h : m.Plain) : m.Quiet := quiet_of_unmapped h.unmapped

/-- Reading leaves a plain memory plain. -/
theorem Plain.afterRead (h : m.Plain) (a : Word) : (m.afterRead a).Plain := by
  rw [h.quiet a]
  exact h

omit [Inhabited κ] in
theorem Plain.write (h : m.Plain) (a : Word) (v : κ) : (m.write a v).Plain := by
  obtain ⟨cells, mapper⟩ := m
  obtain ⟨hsize, hmapper⟩ := h
  cases hmapper
  exact ⟨(Cells.size_write cells a v).trans hsize, rfl⟩

/-- A write changes the one cell that it is made to. -/
theorem Plain.value_write (h : m.Plain) (a b : Word) (v : κ) :
    (m.write a v).value b = if a = b then v else m.value b := by
  obtain ⟨cells, mapper⟩ := m
  obtain ⟨hsize, hmapper⟩ := h
  cases hmapper
  have hsize : cells.row.size = 65536 := hsize
  have ha : a.toNat < cells.row.size := by rw [hsize]; exact a.toNat_lt
  have hb : b.toNat < cells.row.size := by rw [hsize]; exact b.toNat_lt
  show (cells.write a v).read b = if a = b then v else cells.read b
  unfold Cells.write Cells.read Cells.put
  rw [Array.size_setIfInBounds, Nat.mod_eq_of_lt ha, Nat.mod_eq_of_lt hb,
    Array.getD_eq_getD_getElem?, Array.getElem?_setIfInBounds, Array.getD_eq_getD_getElem?]
  by_cases hab : a = b
  · subst hab
    rw [if_pos rfl, if_pos rfl, if_pos ha]
    rfl
  · have hne : a.toNat ≠ b.toNat := fun hnat => hab (UInt16.toNat_inj.mp hnat)
    rw [if_neg hne, if_neg hab]

/-! ## Runs of writes -/

/-- The memory once so many cells have been written one after the other. -/
def stored (m : Memory μ κ) (down : Bool) (target : Word) (v : Nat → κ) : Nat → Memory μ κ
  | 0 => m
  | n + 1 => (m.stored down target v n).write (travel down target n) (v n)

section Stored

variable {down : Bool} {target : Word} {v : Nat → κ}

omit [Inhabited κ] in
theorem Plain.stored (h : m.Plain) (n : Nat) : (m.stored down target v n).Plain := by
  induction n with
  | zero => exact h
  | succ n ih => exact ih.write _ _

/-- Only the cells that are written to change. -/
theorem value_stored_outside (h : m.Plain) {n : Nat} {a : Word}
    (ha : ∀ i < n, a ≠ travel down target i) : (m.stored down target v n).value a = m.value a := by
  induction n with
  | zero => rfl
  | succ n ih =>
    have hlast : travel down target n ≠ a := fun heq => ha n (Nat.lt_succ_self n) heq.symm
    show ((m.stored down target v n).write _ _).value a = _
    rw [(h.stored n).value_write, if_neg hlast]
    exact ih fun i hi => ha i (Nat.lt_succ_of_lt hi)

/-- What is written stays, unless the run goes round the whole address space. -/
theorem value_stored (h : m.Plain) {i n : Nat} (hi : i < n) (hn : n ≤ 65536) :
    (m.stored down target v n).value (travel down target i) = v i := by
  induction n with
  | zero => omega
  | succ n ih =>
    show ((m.stored down target v n).write _ _).value _ = _
    rw [(h.stored n).value_write]
    by_cases hlast : i = n
    · rw [hlast, if_pos rfl]
    · have hne : travel down target n ≠ travel down target i := by
        intro heq
        have := travel_inj (by omega) (by omega) heq
        omega
      rw [if_neg hne]
      exact ih (by omega) (by omega)

end Stored

/-! ## Copies -/

/-- The memory once `n` cells have been copied one after the other. -/
def copied (m : Memory μ κ) (down : Bool) (source target : Word) (n : Nat) : Memory μ κ :=
  (List.range n).foldl
    (fun m i => m.write (travel down target i) (m.value (travel down source i))) m

variable {down : Bool} {source target : Word}

@[simp] theorem copied_zero : m.copied down source target 0 = m := rfl

/-- Each byte is read after the ones before it have been stored. -/
theorem copied_succ (n : Nat) :
    m.copied down source target (n + 1) =
      (m.copied down source target n).write (travel down target n)
        ((m.copied down source target n).value (travel down source n)) := by
  unfold copied
  rw [List.range_succ, List.foldl_append]
  rfl

/-- A copy writes what it finds on its way. -/
theorem copied_eq_stored (n : Nat) :
    m.copied down source target n =
      m.stored down target (fun i => (m.copied down source target i).value (travel down source i))
        n := by
  induction n with
  | zero => rfl
  | succ n ih =>
    show _ = (m.stored down target _ n).write _ _
    rw [copied_succ, ← ih]

/-- Only the target is written to. -/
theorem value_copied_outside (h : m.Plain) {n : Nat} {a : Word}
    (ha : ∀ i < n, a ≠ travel down target i) :
    (m.copied down source target n).value a = m.value a := by
  rw [copied_eq_stored]
  exact value_stored_outside h ha

/-- What is copied to a cell of the target stays there. -/
theorem value_copied_target (h : m.Plain) {i n : Nat} (hi : i < n) (hn : n ≤ 65536) :
    (m.copied down source target n).value (travel down target i) =
      (m.copied down source target i).value (travel down source i) := by
  rw [copied_eq_stored n]
  exact value_stored h hi hn

/-- A cell of the source that is less than the distance to the target away from
its start is still unchanged when its turn comes. -/
theorem value_copied_source (h : m.Plain) {i : Nat} (hi : i < 65536)
    (hbefore : distance down source target = 0 ∨ i < distance down source target) :
    (m.copied down source target i).value (travel down source i) =
      m.value (travel down source i) := by
  refine value_copied_outside h fun j hj heq => ?_
  have hlt := distance_lt down source target
  rw [travel_distance down source target, travel_eq_travel_iff] at heq
  omega

/-- **The cells in front of the target repeat all over it.** -/
theorem value_copied (h : m.Plain) {i n : Nat} (hi : i < n) (hn : n ≤ 65536) :
    (m.copied down source target n).value (travel down target i) =
      m.value (travel down source (i % distance down source target)) := by
  induction i using Nat.strongRecOn generalizing n with
  | ind i ih =>
    rw [value_copied_target h hi hn]
    by_cases hbefore : distance down source target = 0 ∨ i < distance down source target
    · have hmod : i % distance down source target = i := by
        rcases hbefore with hzero | hlt
        · rw [hzero, Nat.mod_zero]
        · exact Nat.mod_eq_of_lt hlt
      rw [value_copied_source h (by omega) hbefore, hmod]
    · -- the cell belongs to the target itself, and was copied a distance ago
      obtain ⟨j, hj⟩ : ∃ j, i = distance down source target + j :=
        ⟨i - distance down source target, by omega⟩
      have hcell : travel down source i = travel down target j := by
        rw [hj, travel_distance down source target]
      rw [hcell, ih j (by omega) (by omega) (by omega), hj, Nat.add_mod_left]

/-- Cells that do not overlap with their copies are copied exactly. -/
theorem value_copied_of_disjoint (h : m.Plain) {n : Nat} (hn : n ≤ 65536)
    (hdisjoint : ∀ i < n, ∀ j < n, travel down source i ≠ travel down target j)
    {i : Nat} (hi : i < n) :
    (m.copied down source target n).value (travel down target i) =
      m.value (travel down source i) := by
  have hmod : i % distance down source target = i := by
    by_cases hle : distance down source target ≤ i
    · -- then the target would start within the source
      refine absurd ?_ (hdisjoint (distance down source target) (by omega) 0 (by omega))
      rw [travel_distance down source target, Nat.add_zero]
    · exact Nat.mod_eq_of_lt (by omega)
  rw [value_copied h hi hn, hmod]

end Memory

end Retrocore
