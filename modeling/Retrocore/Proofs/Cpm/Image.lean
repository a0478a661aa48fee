import Retrocore.Cpm
import Retrocore.Proofs.Disassembly.Loading

/-!
# The memory that a program starts with

A program is loaded at 0x100, and both entry points of the system are written
over the zeros below it. A load goes round the memory if it is too long, so that
nothing but the number of bytes that are taken of a program keeps it out of the
zero page. `laidOut_iff` says of every cell what it holds at the beginning, for
programs of every length.

None of the three loads reaches the end of the row, which for the first of them
is the bound on the program; `getElem?_image` puts them on top of one another.
-/

namespace Retrocore.Cpm

/-- What a program finds: itself as far as there is room, the two entry points of
the system, and zeros. -/
structure LaidOut (program : List Byte) (c : Cells Byte) : Prop where
  size : c.size = 65536
  /-- An OUT to the port of the first trap. -/
  finish : c.row[0]? = some 0xd3 ∧ c.row[1]? = some 0x00
  /-- An OUT to the port of the second trap, and a RET. -/
  call : c.row[5]? = some 0xd3 ∧ c.row[6]? = some 0x01 ∧ c.row[7]? = some 0xc9
  zeroPage : ∀ i < 0x100, i ∉ [0, 1, 5, 6, 7] → c.row[i]? = some 0
  loaded : ∀ i, (hi : i < program.length) → i < 65280 → c.row[0x100 + i]? = some program[i]
  rest : ∀ i < 65536, 0x100 + program.length ≤ i → c.row[i]? = some 0

/-! ## What each cell holds -/

/-- The memory before anything is loaded. -/
def blank : Cells Byte := ⟨Array.replicate memorySize 0⟩

theorem size_blank : blank.size = 65536 := Array.size_replicate

/-- Every cell of the blank image is zero. -/
theorem getElem?_blank {i : Nat} (hi : i < 65536) : blank.row[i]? = some 0 := by
  have hmemory : i < memorySize := hi
  show (Array.replicate memorySize (0 : Byte))[i]? = some 0
  rw [Array.getElem?_replicate, if_pos hmemory]

/-- The image is made by three loads: the program first, and the two stubs over it. -/
theorem image_eq (program : List Byte) :
    image program =
      ((blank.loadFrom 0x100 (program.take 65280)).loadFrom 0 [0xd3, 0x00]).loadFrom 5
        [0xd3, 0x01, 0xc9] := rfl

/-- Loading leaves 64 KiB as they are. -/
theorem size_image (program : List Byte) : (image program).size = 65536 := by
  rw [image_eq, Cells.size_loadFrom, Cells.size_loadFrom, Cells.size_loadFrom, size_blank]

/-- The entry points stand above the program, and that above the zeros. -/
theorem getElem?_image (program : List Byte) {i : Nat} (hi : i < 65536) :
    (image program).row[i]? =
      if 5 ≤ i ∧ i < 8 then ([0xd3, 0x01, 0xc9] : List Byte)[i - 5]?
      else if i < 2 then ([0xd3, 0x00] : List Byte)[i]?
      else if 0x100 ≤ i ∧ i < 0x100 + program.length then program[i - 0x100]?
      else some 0 := by
  have htaken : (program.take 65280).length = min 65280 program.length := List.length_take
  have hprogram : 0x100 + (program.take 65280).length ≤ blank.size := by
    rw [size_blank]
    omega
  have hfinish : 0 + [0xd3, 0x00].length ≤ (blank.loadFrom 0x100 (program.take 65280)).size := by
    rw [Cells.size_loadFrom, size_blank]
    decide
  have hcall : 5 + [0xd3, 0x01, 0xc9].length ≤
      ((blank.loadFrom 0x100 (program.take 65280)).loadFrom 0 [0xd3, 0x00]).size := by
    rw [Cells.size_loadFrom, Cells.size_loadFrom, size_blank]
    decide
  rw [image_eq, Cells.getElem?_loadFrom _ _ _ _ hcall, Cells.getElem?_loadFrom _ _ _ _ hfinish,
    Cells.getElem?_loadFrom _ _ _ _ hprogram, getElem?_blank hi]
  -- what is cut off of the program would stand behind the last cell
  have hinside : i < 0x100 + (program.take 65280).length ↔ i < 0x100 + program.length := by omega
  have hcell : (program.take 65280)[i - 0x100]? = program[i - 0x100]? :=
    List.getElem?_take_of_lt (by omega)
  simp only [hinside, hcell, List.length_cons, List.length_nil, Nat.reduceAdd, Nat.zero_le, true_and,
    Nat.sub_zero]

/-! ## The layout -/

/-- What is made is laid out as it should be, also where the program is too long. -/
theorem laidOut_image (program : List Byte) : LaidOut program (image program) where
  size := size_image program
  finish := ⟨getElem?_image program (by decide), getElem?_image program (by decide)⟩
  call := ⟨getElem?_image program (by decide), getElem?_image program (by decide),
    getElem?_image program (by decide)⟩
  zeroPage i hlow hi := by
    simp only [List.mem_cons, List.not_mem_nil, or_false, not_or] at hi
    rw [getElem?_image program (by omega), if_neg (by omega), if_neg (by omega), if_neg (by omega)]
  loaded i hi hroom := by
    rw [getElem?_image program (by omega), if_neg (by omega), if_neg (by omega), if_pos (by omega),
      Nat.add_sub_cancel_left, List.getElem?_eq_getElem hi]
  rest i hi hbehind := by
    rw [getElem?_image program hi, if_neg (by omega), if_neg (by omega), if_neg (by omega)]

/-- The layout leaves no cell open. -/
theorem LaidOut.unique {program : List Byte} {c c' : Cells Byte} (h : LaidOut program c)
    (h' : LaidOut program c') : c = c' := by
  obtain ⟨row⟩ := c
  obtain ⟨row'⟩ := c'
  refine congrArg Cells.mk (Array.ext_getElem? fun i => ?_)
  by_cases hi : i < 65536
  · by_cases hbehind : 0x100 + program.length ≤ i
    · rw [h.rest i hi hbehind, h'.rest i hi hbehind]
    by_cases hlow : i < 0x100
    · by_cases hentry : i ∈ [0, 1, 5, 6, 7]
      · simp only [List.mem_cons, List.not_mem_nil, or_false] at hentry
        obtain rfl | rfl | rfl | rfl | rfl := hentry
        · exact h.finish.1.trans h'.finish.1.symm
        · exact h.finish.2.trans h'.finish.2.symm
        · exact h.call.1.trans h'.call.1.symm
        · exact h.call.2.1.trans h'.call.2.1.symm
        · exact h.call.2.2.trans h'.call.2.2.symm
      · rw [h.zeroPage i hlow hentry, h'.zeroPage i hlow hentry]
    · obtain ⟨j, rfl⟩ : ∃ j, i = 0x100 + j := ⟨i - 0x100, by omega⟩
      rw [h.loaded j (by omega) (by omega), h'.loaded j (by omega) (by omega)]
  · have hsize : row.size = 65536 := h.size
    have hsize' : row'.size = 65536 := h'.size
    rw [Array.getElem?_eq_none (by omega), Array.getElem?_eq_none (by omega)]

/-- **The memory that a program starts with is laid out as CP/M has it**, whatever
the length of the program, and this says of every cell what it holds. -/
theorem laidOut_iff (program : List Byte) (c : Cells Byte) :
    LaidOut program c ↔ c = image program := by
  constructor
  · intro h
    exact h.unique (laidOut_image program)
  · rintro rfl
    exact laidOut_image program

end Retrocore.Cpm
