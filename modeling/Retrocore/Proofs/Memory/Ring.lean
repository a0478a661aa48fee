import Retrocore.Proofs.Memory.Reads
import Retrocore.Proofs.Operations

/-!
# Memory as a ring of cells

An address is an index into a ring: behind the last cell comes the first one
again. Whatever is stored, by the machine, past a mapper or by a load of any
length, comes to a row of single items, each with an index that is wrapped round
the cells (`Storing.items`). `lastStored` picks from such a history what was
stored to a cell last.

`ring_of_cells` says that this is all there is to a memory without a mapper:
after any run of stores every read gives what was stored last to the cell that
its address falls on, or what the cell held at the beginning, and changes nothing
itself. Slices show the same cells, but are cut off at the end of the row and
never go round.

The induction is on the items, not on the stores: a load that is longer than the
row goes over its own beginning, so that not even within one store every item
lasts.
-/

namespace Retrocore

/-- Something is stored to a memory. -/
inductive Storing (κ : Type) where
  | write (a : Word) (v : κ)
  | directWrite (a : Word) (v : κ)
  | load (values : List κ) (start : Word)

/-- The items that are stored, in order, each with its index before that is
wrapped. The indices of a load are numbers: they do not start again where the
addresses would. -/
def Storing.items {κ : Type} : Storing κ → List (κ × Nat)
  | .write a v | .directWrite a v => [(v, a.toNat)]
  | .load values start => values.zipIdx start.toNat

instance {μ κ : Type} [Mapper μ κ] : Operable (Memory μ κ) (Storing κ) where
  perform m
    | .write a v => m.write a v
    | .directWrite a v => m.directWrite a v
    | .load values start => m.load values start

/-! ## Histories -/

section

variable {κ : Type}

/-- What was stored last to a cell, of `n` cells in a ring. -/
def lastStored (n : Nat) (history : List (κ × Nat)) (i : Nat) : Option κ :=
  ((history.filter fun item => item.2 % n = i).getLast?).map Prod.fst

/-- What is stored later counts. -/
theorem lastStored_cons (n : Nat) (item : κ × Nat) (later : List (κ × Nat)) (i : Nat) :
    lastStored n (item :: later) i =
      (lastStored n later i).or (if item.2 % n = i then some item.1 else none) := by
  unfold lastStored
  by_cases hi : item.2 % n = i
  · rw [List.filter_cons_of_pos (by simpa using hi), List.getLast?_cons, if_pos hi]
    cases (later.filter fun item => item.2 % n = i).getLast? <;> rfl
  · rw [List.filter_cons_of_neg (by simpa using hi), if_neg hi, Option.or_none]

end

namespace Cells

variable {κ : Type}

/-- Stores items one after the other. -/
def putAll (c : Cells κ) (items : List (κ × Nat)) : Cells κ :=
  items.foldl (fun c item => c.put item.2 item.1) c

theorem putAll_append (c : Cells κ) (xs ys : List (κ × Nat)) :
    c.putAll (xs ++ ys) = (c.putAll xs).putAll ys :=
  List.foldl_append

/-- Loading stores one value after the other, at ascending indices. -/
theorem loadFrom_eq_putAll (values : List κ) (c : Cells κ) (i : Nat) :
    c.loadFrom i values = c.putAll (values.zipIdx i) := by
  induction values generalizing c i with
  | nil => rfl
  | cons v values ih =>
    show (c.put i v).loadFrom (i + 1) values = (c.put i v).putAll (values.zipIdx (i + 1))
    exact ih (c.put i v) (i + 1)

@[simp] theorem size_putAll (c : Cells κ) (items : List (κ × Nat)) :
    (c.putAll items).size = c.size := by
  induction items generalizing c with
  | nil => rfl
  | cons item later ih => exact (ih _).trans (c.size_put item.2 item.1)

variable [Inhabited κ]

/-- What a cell holds. -/
def cell (c : Cells κ) (i : Nat) : κ := c.row.getD i default

/-- A value goes to the cell that its index falls on. -/
theorem cell_put (c : Cells κ) (j : Nat) (v : κ) {i : Nat} (hi : i < c.size) :
    (c.put j v).cell i = if j % c.size = i then v else c.cell i := by
  show (c.row.setIfInBounds (j % c.size) v).getD i default = _
  rw [Array.getD_eq_getD_getElem?, Array.getElem?_setIfInBounds]
  by_cases hj : j % c.size = i
  · have hlt : j % c.size < c.row.size := hj ▸ hi
    rw [if_pos hj, if_pos hj, if_pos hlt]
    rfl
  · rw [if_neg hj, if_neg hj, ← Array.getD_eq_getD_getElem?]
    rfl

/-- A cell holds what was stored to it last, if anything was. -/
theorem cell_putAll (items : List (κ × Nat)) (c : Cells κ) {i : Nat} (hi : i < c.size) :
    (c.putAll items).cell i = (lastStored c.size items i).getD (c.cell i) := by
  induction items generalizing c with
  | nil => rfl
  | cons item later ih =>
    have hsize : (c.put item.2 item.1).size = c.size := c.size_put item.2 item.1
    show ((c.put item.2 item.1).putAll later).cell i = _
    rw [ih (c.put item.2 item.1) (hsize ▸ hi), hsize, c.cell_put item.2 item.1 hi, lastStored_cons]
    -- the first item counts only where none of the later ones falls on the cell
    rcases lastStored c.size later i with _ | v
    · by_cases hitem : item.2 % c.size = i
      · rw [if_pos hitem, if_pos hitem]
        rfl
      · rw [if_neg hitem, if_neg hitem]
        rfl
    · rfl

/-- A read finds the cell that the address falls on. -/
theorem read_eq_cell (c : Cells κ) (a : Word) : c.read a = c.cell (a.toNat % c.size) := rfl

/-- A slice is cut off at the end of the row. -/
theorem slice_eq (c : Cells κ) (first past : Word) :
    c.slice first past =
      (List.range' (min first.toNat c.size)
        (min past.toNat c.size - min first.toNat c.size)).map c.cell := by
  have hrow : c.row.size = c.size := rfl
  unfold slice
  apply List.ext_getElem
  · simp only [Array.length_toList, Array.size_extract, List.length_map, List.length_range', hrow]
    omega
  · intro i hleft hright
    simp only [List.length_map, List.length_range'] at hright
    -- there is an `i`-th cell, so the slice starts inside the row
    have hi : first.toNat + i < c.row.size := by omega
    have hfirst : min first.toNat c.size = first.toNat := by omega
    rw [Array.getElem_toList, Array.getElem_extract, List.getElem_map, List.getElem_range', hfirst,
      Nat.one_mul]
    unfold cell
    rw [Array.getD_eq_getD_getElem?, Array.getElem?_eq_getElem hi]
    rfl

end Cells

/-! ## Runs of stores -/

namespace Memory

open Operable

variable {μ κ : Type} [Mapper μ κ] {m : Memory μ κ}

/-- One store puts its items, in order. -/
theorem perform_eq_putAll (hunmapped : m.mapper = none) (o : Storing κ) :
    perform m o = ⟨m.cells.putAll o.items, none⟩ := by
  obtain ⟨cells, mapper⟩ := m
  cases hunmapped
  cases o with
  | write a v => rfl
  | directWrite a v => rfl
  | load values start =>
    exact congrArg (Memory.mk · none) (Cells.loadFrom_eq_putAll values cells start.toNat)

/-- A run puts the items of all its stores, one after the other. -/
theorem after_eq_putAll (hunmapped : m.mapper = none) (run : List (Storing κ)) :
    after m run = ⟨m.cells.putAll (run.flatMap Storing.items), none⟩ := by
  induction run generalizing m with
  | nil =>
    obtain ⟨cells, mapper⟩ := m
    cases hunmapped
    rfl
  | cons o run ih =>
    rw [after_cons, perform_eq_putAll hunmapped o, ih rfl, List.flatMap_cons, Cells.putAll_append]

variable [Inhabited κ]

/-- What a ring holds after a run: what was stored last to the cell, or else what
it held at the beginning. -/
def held (m : Memory μ κ) (run : List (Storing κ)) (i : Nat) : κ :=
  (lastStored m.size (run.flatMap Storing.items) i).getD (m.cells.cell i)

/-- So a cell holds what was stored there last. -/
theorem cell_after (hunmapped : m.mapper = none) (run : List (Storing κ)) {i : Nat}
    (hi : i < m.size) : (after m run).cells.cell i = m.held run i := by
  rw [after_eq_putAll hunmapped run]
  exact Cells.cell_putAll _ m.cells hi

/-- **A memory without a mapper is a ring of cells, each of which holds what was
stored to it last.** -/
theorem ring_of_cells (hunmapped : m.mapper = none) (hsize : 0 < m.size)
    (run : List (Storing κ)) :
    let m' := after m run
    m'.size = m.size ∧
    (∀ a : Word, m'.read a = (m.held run (a.toNat % m.size), m') ∧
      m'.directRead a = m.held run (a.toNat % m.size)) ∧
    ∀ first past : Word,
      m'.slice first past =
        (List.range' (min first.toNat m.size)
          (min past.toNat m.size - min first.toNat m.size)).map (m.held run) ∧
      (past ≤ first → m'.slice first past = []) := by
  intro m'
  have hafter : m' = ⟨m.cells.putAll (run.flatMap Storing.items), none⟩ :=
    after_eq_putAll hunmapped run
  have hsame : m'.cells.size = m.size := by
    rw [hafter]
    exact Cells.size_putAll ..
  have hdirect : ∀ a : Word, m'.directRead a = m.held run (a.toNat % m.size) := by
    intro a
    show m'.cells.read a = _
    rw [Cells.read_eq_cell, hsame]
    exact cell_after hunmapped run (Nat.mod_lt _ hsize)
  have hslice : ∀ first past : Word, m'.slice first past =
      (List.range' (min first.toNat m.size)
        (min past.toNat m.size - min first.toNat m.size)).map (m.held run) := by
    intro first past
    show m'.cells.slice first past = _
    rw [Cells.slice_eq, hsame]
    apply List.map_congr_left
    intro i hi
    have hi := List.mem_range'_1.mp hi
    exact cell_after hunmapped run (by omega)
  refine ⟨hsame, ?_, ?_⟩
  · intro a
    refine ⟨?_, hdirect a⟩
    -- nothing stands between the bus and the cells
    have hread : m'.read a = (m'.directRead a, m') := by rw [hafter]; rfl
    rw [hread, hdirect a]
  · intro first past
    refine ⟨hslice first past, ?_⟩
    intro hle
    have hnone : min past.toNat m.size - min first.toNat m.size = 0 := by
      have := UInt16.le_iff_toNat_le.mp hle
      omega
    rw [hslice, hnone]
    rfl

/-- Four values are loaded to three cells from the last address on: the last of
them takes the place of the first, and the second goes to the cell that would
be next if the address space did not end. -/
theorem ring_of_cells_overlong :
    let m : Memory Empty Byte := .ofList [7, 8, 9]
    let run : List (Storing Byte) :=
      [.write 1 0xaa, .load [1, 2, 3, 4] 65535, .directWrite 65534 5]
    (m.mapper = none ∧ 0 < m.size) ∧
    ((after m run).read 3).1 = 4 ∧ (after m run).slice 0 9 = [4, 2, 5] ∧
    (after m run).slice 2 1 = [] := by
  intro m run
  have hsize : 0 < m.size := by decide
  obtain ⟨_, hread, hslice⟩ := ring_of_cells (m := m) rfl hsize run
  have hvalue : ((after m run).read 3).1 = m.held run ((3 : Word).toNat % m.size) :=
    congrArg Prod.fst (hread 3).1
  exact ⟨⟨rfl, hsize⟩, hvalue.trans (by decide), (hslice 0 9).1.trans (by decide),
    (hslice 2 1).2 (by decide)⟩

end Memory

end Retrocore
