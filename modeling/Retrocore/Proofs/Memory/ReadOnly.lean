import Mathlib.Logic.Nontrivial.Basic
import Retrocore.Proofs.Memory.Reads

/-!
# How far ROM is read-only

`ReadOnlyRange` compares addresses as they stand on the bus, and the cells count
them modulo their number. In a memory smaller than the address space a cell has
more addresses than one, and only one of them, the lowest, is guarded.

`rom_kept_iff` says when this matters. No sequence of accesses changes a cell of
the range just if the bus is too narrow for the first address at which the range
is seen a second time, a whole row of cells behind the range. On a wider bus a
single write changes a cell.
-/

namespace Retrocore

/-- What is done to a memory over its bus. -/
inductive Access (κ : Type)
  | read (a : Word)
  | write (a : Word) (v : κ)

def Access.address {κ : Type} : Access κ → Word
  | .read a => a
  | .write a _ => a

namespace Memory

variable {κ : Type} [Inhabited κ]

/-- The memory after an access. -/
def access {μ : Type} [Mapper μ κ] (m : Memory μ κ) : Access κ → Memory μ κ
  | .read a => m.afterRead a
  | .write a v => m.write a v

def accessAll {μ : Type} [Mapper μ κ] (m : Memory μ κ) (accesses : List (Access κ)) :
    Memory μ κ :=
  accesses.foldl access m

variable {m m' : Memory ReadOnlyRange κ} {first past bus : Nat}

/-- A write to the range is counted and dropped. -/
theorem write_covered {rom : ReadOnlyRange} {a : Word} (h : rom.covers a = true)
    (cells : Cells κ) (v : κ) :
    write ⟨cells, some rom⟩ a v = ⟨cells, some { rom with ignored := rom.ignored + 1 }⟩ := by
  simp only [write, Mapper.write, h, if_true]

/-- A write outside of the range goes to the cells. -/
theorem write_uncovered {rom : ReadOnlyRange} {a : Word} (h : rom.covers a = false)
    (cells : Cells κ) (v : κ) :
    write ⟨cells, some rom⟩ a v = ⟨cells.write a v, some rom⟩ := by
  simp only [write, Mapper.write, h, Bool.false_eq_true, if_false]

/-- The cells from `first` up to `past` are in `m'` as they are in `m`, and
guarded. -/
structure Guarded (first past : Nat) (m m' : Memory ReadOnlyRange κ) : Prop where
  size : m'.size = m.size
  mapper : ∃ ignored, m'.mapper = some ⟨first, past, ignored⟩
  kept : ∀ i, first ≤ i → i < past → m'.cells.row[i]? = m.cells.row[i]?

/-- Below the whole row of cells behind the ROM, an address that is not of the
ROM does not fall on it either. -/
theorem mod_ne_of_uncovered {a i n : Nat} (ha : a < first + n) (hcovers : ¬(first ≤ a ∧ a < past))
    (hn : 0 < n) (hfirst : first ≤ i) (hpast : i < past) : a % n ≠ i := by
  intro hhit
  have hin : i < n := hhit ▸ Nat.mod_lt a hn
  by_cases hlow : a < n
  · rw [Nat.mod_eq_of_lt hlow] at hhit
    omega
  · -- Once round, and not as far as the first cell of the ROM.
    rw [Nat.mod_eq_sub_mod (Nat.le_of_not_lt hlow), Nat.mod_eq_of_lt (by omega)] at hhit
    omega

/-- A write to an address that is no alias of the range keeps what is in it. -/
theorem Guarded.write (h : Guarded first past m m') (hsize : 0 < m.size) (a : Word) (v : κ)
    (ha : a.toNat < first + m.size) : Guarded first past m (m'.write a v) := by
  obtain ⟨cells, mapper⟩ := m'
  obtain ⟨hsame, ⟨ignored, rfl⟩, hkept⟩ := h
  cases hcovers : ReadOnlyRange.covers ⟨first, past, ignored⟩ a with
  | true =>
    rw [write_covered hcovers]
    exact ⟨hsame, ⟨ignored + 1, rfl⟩, hkept⟩
  | false =>
    have hrow : cells.row.size = m.size := hsame
    rw [← hrow] at ha hsize
    rw [write_uncovered hcovers]
    refine ⟨(Cells.size_write cells a v).trans hsame, ⟨ignored, rfl⟩, ?_⟩
    intro i hfirst hpast
    have hout : ¬(first ≤ a.toNat ∧ a.toNat < past) := by
      intro hin
      simp [ReadOnlyRange.covers, hin] at hcovers
    have hmiss : a.toNat % cells.row.size ≠ i :=
      mod_ne_of_uncovered ha hout hsize hfirst hpast
    rw [← hkept i hfirst hpast]
    exact Array.getElem?_setIfInBounds_ne hmiss

/-- So long as no address is behind the whole row, the ROM is kept. -/
theorem Guarded.accessAll (h : Guarded first past m m') (hsize : 0 < m.size)
    (accesses : List (Access κ))
    (hlow : ∀ x ∈ accesses, x.address.toNat < first + m.size) :
    Guarded first past m (m'.accessAll accesses) := by
  induction accesses generalizing m' with
  | nil => exact h
  | cons x rest ih =>
    obtain ⟨hx, hrest⟩ := List.forall_mem_cons.mp hlow
    cases x with
    | read a =>
      have hquiet : m'.access (.read a) = m' := quiet_of_readOnly m' a
      show Guarded first past m ((m'.access (.read a)).accessAll rest)
      rw [hquiet]
      exact ih h hrest
    | write a v => exact ih (h.write hsize a v hx) hrest

/-- A whole row of cells behind the ROM, a write goes through to it. -/
theorem write_alias {rom : ReadOnlyRange} (hmapper : m.mapper = some rom)
    (hpast : rom.past ≤ m.size) (hfirst : rom.first < rom.past) {a : Word}
    (ha : a.toNat = rom.first + m.size) (v : κ) :
    (m.write a v).cells.row[rom.first]? = some v := by
  obtain ⟨cells, _⟩ := m
  cases hmapper
  have ha : a.toNat = rom.first + cells.row.size := ha
  have hrow : rom.first < cells.row.size := Nat.lt_of_lt_of_le hfirst hpast
  have huncovered : rom.covers a = false := by
    have hbehind : ¬a.toNat < rom.past := by
      rw [ha]
      exact Nat.not_lt_of_le (Nat.le_trans hpast (Nat.le_add_left ..))
    simp [ReadOnlyRange.covers, hbehind]
  rw [write_uncovered huncovered]
  show (cells.row.setIfInBounds (a.toNat % cells.row.size) v)[rom.first]? = some v
  rw [ha, Nat.add_mod_right, Nat.mod_eq_of_lt hrow]
  exact Array.getElem?_setIfInBounds_self_of_lt hrow

/-- No accesses over a bus of the given width change the ROM just if the bus
does not reach a whole row of cells behind it. -/
theorem rom_kept_iff [Nontrivial κ] {rom : ReadOnlyRange} (hmapper : m.mapper = some rom)
    (hsize : 0 < m.size) (hpast : rom.past ≤ m.size) (hbus : bus ≤ 65536) :
    (∀ accesses : List (Access κ), (∀ x ∈ accesses, x.address.toNat < bus) →
      ∀ i, rom.first ≤ i → i < rom.past →
        (m.accessAll accesses).cells.row[i]? = m.cells.row[i]?) ↔
    rom.past ≤ rom.first ∨ bus ≤ rom.first + m.size := by
  constructor
  · intro hkept
    by_contra hreach
    obtain ⟨hfirst, halias⟩ := not_or.mp hreach
    have hfirst : rom.first < rom.past := Nat.lt_of_not_le hfirst
    have halias : rom.first + m.size < bus := Nat.lt_of_not_le halias
    let a := UInt16.ofNat (rom.first + m.size)
    have ha : a.toNat = rom.first + m.size :=
      UInt16.toNat_ofNat_of_lt' (Nat.lt_of_lt_of_le halias hbus)
    obtain ⟨old, hold⟩ : ∃ old, m.cells.row[rom.first]? = some old :=
      ⟨_, Array.getElem?_eq_getElem (Nat.lt_of_lt_of_le hfirst hpast)⟩
    obtain ⟨new, hnew⟩ := exists_ne old
    have hsame := hkept [.write a new] (List.forall_mem_singleton.mpr (ha ▸ halias))
      rom.first (Nat.le_refl _) hfirst
    have hwritten := write_alias hmapper hpast hfirst ha new
    have : some new = some old := hwritten.symm.trans (hsame.trans hold)
    exact hnew (Option.some.inj this)
  · rintro (hnone | hnarrow) accesses hlow i hfirst hlast
    · omega
    · have hguarded : Guarded rom.first rom.past m m :=
        ⟨rfl, ⟨rom.ignored, hmapper⟩, fun _ _ _ => rfl⟩
      have hlow : ∀ x ∈ accesses, x.address.toNat < rom.first + m.size :=
        fun x hx => Nat.lt_of_lt_of_le (hlow x hx) hnarrow
      exact (hguarded.accessAll hsize accesses hlow).kept i hfirst hlast

/-- In a full memory every cell has one address, and ROM is ROM. -/
theorem rom_kept_iff_full :
    let m : Memory ReadOnlyRange Byte := (zeros 65536).attach ⟨0, 256, 0⟩
    (m.mapper = some ⟨0, 256, 0⟩ ∧ 0 < m.size ∧ 256 ≤ m.size) ∧
    ∀ accesses : List (Access Byte), ∀ i < 256,
      (m.accessAll accesses).cells.row[i]? = m.cells.row[i]? := by
  intro m
  have hsize : m.size = 65536 := Array.size_replicate
  have hrom : m.mapper = some ⟨0, 256, 0⟩ := rfl
  have hpos : 0 < m.size := by omega
  have hpast : 256 ≤ m.size := by omega
  have : Nontrivial Byte := ⟨0, 1, by decide⟩
  have hkept := (rom_kept_iff hrom hpos hpast (Nat.le_refl 65536)).mpr (.inr (by omega))
  exact ⟨⟨hrom, hpos, hpast⟩, fun accesses i hi =>
    hkept accesses (fun x _ => x.address.toNat_lt) i (Nat.zero_le i) hi⟩

/-- Sixteen cells, the first four of them ROM: a write to address 17 changes the
second. -/
theorem rom_written_at_alias :
    let m : Memory ReadOnlyRange Byte := (zeros 16).attach ⟨0, 4, 0⟩
    (m.mapper = some ⟨0, 4, 0⟩ ∧ 0 < m.size ∧ 4 ≤ m.size) ∧
    m.cells.row[1]? = some 0 ∧ (m.accessAll [.write 17 0x55]).cells.row[1]? = some 0x55 := by
  decide

end Memory

end Retrocore
