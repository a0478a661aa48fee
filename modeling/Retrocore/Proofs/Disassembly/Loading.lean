import Retrocore.Memory
import Retrocore.Decode
import Retrocore.Proofs.Disassembly.Locality
import Retrocore.Proofs.Memory.Reads

/-!
# Reading back what was loaded

A file that fits into an otherwise empty memory is found there cell by cell,
with zeros behind it. Around a cell of the file the memory therefore shows a
processor what the file itself, continued with zeros, shows the disassembler
(`stream_loaded`), as long as three cells are left between the end of the file
and the end of the memory.
-/

namespace Retrocore

variable {κ : Type}

namespace Cells

/-- A write within the row changes one cell. -/
theorem getElem?_put (c : Cells κ) {i : Nat} (hi : i < c.size) (v : κ) (j : Nat) :
    (c.put i v).row[j]? = if i = j then some v else c.row[j]? := by
  have hi' : i < c.row.size := hi
  unfold put
  rw [Nat.mod_eq_of_lt hi', Array.getElem?_setIfInBounds, if_pos hi']

/-- Values loaded without wrapping stand behind each other; the other cells are
as they were. -/
theorem getElem?_loadFrom (c : Cells κ) (vs : List κ) (i j : Nat)
    (hfit : i + vs.length ≤ c.size) :
    (c.loadFrom i vs).row[j]? =
      if i ≤ j ∧ j < i + vs.length then vs[j - i]? else c.row[j]? := by
  induction vs generalizing c i with
  | nil =>
    have hempty : ¬ (i ≤ j ∧ j < i + 0) := by omega
    exact (if_neg hempty).symm
  | cons v vs ih =>
    rw [List.length_cons] at hfit ⊢
    have hrest := ih (c.put i v) (i + 1) (by rw [size_put]; omega)
    rw [loadFrom, hrest, getElem?_put c (by omega)]
    -- the first value stays where it is, as the others are put behind it
    by_cases hij : i = j
    · subst hij
      rw [if_neg (by omega), if_pos rfl, if_pos (by omega), Nat.sub_self]
      rfl
    · rw [if_neg hij]
      by_cases hin : i + 1 ≤ j ∧ j < i + 1 + vs.length
      · have hpos : j - i = j - (i + 1) + 1 := by omega
        rw [if_pos hin, if_pos (by omega), hpos, List.getElem?_cons_succ]
      · rw [if_neg hin, if_neg (by omega)]

end Cells

variable [Inhabited κ] {μ : Type}

/-- The memory of a machine into which a file has been loaded. -/
def loaded (size : Nat) (image : Array κ) (origin : Word) : Memory μ κ :=
  (Memory.zeros size).load image.toList origin

/-- An image is loaded into memory without a mapper. -/
theorem quiet_loaded [Mapper μ κ] (size : Nat) (image : Array κ) (origin : Word) :
    (loaded size image origin : Memory μ κ).Quiet :=
  Memory.quiet_of_unmapped rfl

/-- A loaded file is found where it was loaded to, and zeros elsewhere. -/
theorem value_loaded [Mapper μ κ] {size : Nat} {image : Array κ} {origin a : Word}
    (hfit : origin.toNat + image.size ≤ size) (hle : origin ≤ a)
    (ha : a.toNat < size) :
    (loaded size image origin : Memory μ κ).value a =
      image.getD (a.toNat - origin.toNat) default := by
  let zeros : Cells κ := ⟨Array.replicate size default⟩
  have hzeros : zeros.size = size := Array.size_replicate
  have hsize : (zeros.loadFrom origin.toNat image.toList).row.size = size :=
    (Cells.size_loadFrom ..).trans hzeros
  have hlist : image.toList.length = image.size := Array.length_toList
  have hget := zeros.getElem?_loadFrom image.toList origin.toNat a.toNat
    (by rw [hlist, hzeros]; exact hfit)
  have hle' : origin.toNat ≤ a.toNat := hle
  show (zeros.loadFrom origin.toNat image.toList).row.getD
    (a.toNat % (zeros.loadFrom origin.toNat image.toList).row.size) default = _
  rw [hsize, Nat.mod_eq_of_lt ha, Array.getD_eq_getD_getElem?,
    Array.getD_eq_getD_getElem?, hget, hlist]
  -- in the file, or behind it where there are zeros
  by_cases hin : a.toNat < origin.toNat + image.size
  · rw [if_pos ⟨hle', hin⟩, Array.getElem?_toList]
  · rw [if_neg (by omega), Array.getElem?_replicate, if_pos ha,
      Array.getElem?_eq_none (by omega)]
    rfl

/-- Around a cell of the file, memory and file start alike. -/
theorem stream_loaded [Mapper μ κ] {size : Nat} {image : Array κ} {origin : Word}
    {pos : Nat} (hbus : size ≤ 65536)
    (hfit : origin.toNat + image.size + 3 ≤ size) (hpos : pos < image.size) :
    Stream.AgreeAtStart
      ((loaded size image origin : Memory μ κ).stream (origin + UInt16.ofNat pos))
      (Stream.ofArray image pos) := by
  let memory : Memory μ κ := loaded size image origin
  have hcell : ∀ i < 4, memory.stream (origin + UInt16.ofNat pos) i =
      Stream.ofArray image pos i := by
    intro i hi
    have hbound : origin.toNat + pos + i < 65536 := by omega
    have haddress : (origin + UInt16.ofNat pos + UInt16.ofNat i).toNat =
        origin.toNat + pos + i := by
      simp only [UInt16.toNat_add, UInt16.toNat_ofNat']
      omega
    rw [(quiet_loaded size image origin).stream]
    unfold Stream.ofArray
    have hbehind : origin ≤ origin + UInt16.ofNat pos + UInt16.ofNat i := by
      rw [UInt16.le_iff_toNat_le, haddress]
      omega
    rw [value_loaded (by omega) hbehind (by rw [haddress]; omega), haddress]
    congr 1
    omega
  exact ⟨hcell 0 (by decide), hcell 1 (by decide), hcell 2 (by decide),
    hcell 3 (by decide)⟩

end Retrocore
