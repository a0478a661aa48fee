import Mathlib.Data.List.Chain
import Retrocore.Disassembly
import Retrocore.Proofs.Disassembly.Locality

/-!
# The walk tiles its file

The disassembler reads a file line by line: it takes the line at a position and
goes on behind the cells that the line covers, until the position is no longer
within the file. `disassembly_tiles` says that this comes to an end on every
machine and for every file, and that the lines then cover the file like tiles:
one behind the other, each cell once, and only the last of them may stand out,
by three cells at the most.

`Dialect.Reads` is this way of reading, in which nothing but the decoder makes
the position advance. All that is needed of a decoder is that an instruction
takes at least one cell and at most four (`Dialect.Bounded`).
-/

namespace Retrocore

/-- A line and the cells that it covers: from `start` up to, but not including,
`past`. -/
structure Tile where
  line : Line
  start : Nat
  past : Nat

def Tile.covers (t : Tile) (i : Nat) : Bool := t.start ≤ i ∧ i < t.past

namespace Dialect

variable {κ : Type} [Inhabited κ] (d : Dialect κ) (cells : Array κ) (origin : Word)

/-- What is read at a position, if it is within the file. -/
def tileAt? (pos : Nat) : Option Tile :=
  if pos < cells.size then
    let (text, length) := d.textAt cells origin pos
    some ⟨⟨origin + UInt16.ofNat pos, text, d.decimal⟩, pos, pos + length⟩
  else none

/-- Reading from one position on, these tiles come one after the other, and the
last of them leads to another position. -/
inductive Reads : Nat → List Tile → Nat → Prop
  | nothing {pos : Nat} : Reads pos [] pos
  | tile {pos past : Nat} {t : Tile} {ts : List Tile} (hread : d.tileAt? cells origin pos = some t)
    (hrest : Reads t.past ts past) : Reads pos (t :: ts) past

/-- The lines of a file as its tiles. -/
structure Tiling (tiles : List Tile) : Prop where
  lines : d.disassemble cells origin = tiles.map Tile.line
  /-- They are read from the first cell on, until nothing is left to be read. -/
  reads : ∃ past, d.Reads cells origin 0 tiles past ∧ d.tileAt? cells origin past = none
  length_le : tiles.length ≤ cells.size
  starts : ∀ t ∈ tiles.head?, t.start = 0
  consecutive : tiles.IsChain fun t next => next.start = t.past
  once : ∀ i < cells.size, tiles.countP (·.covers i) = 1
  inside : ∀ t ∈ tiles, t.start < cells.size
  fits : ∀ t ∈ tiles.dropLast, t.past ≤ cells.size
  overhang : ∀ t ∈ tiles, t.past ≤ cells.size + 3
  /-- A cell that starts no instruction has a line for itself. -/
  alone : ∀ t ∈ tiles, d.decode (.ofArray cells t.start) t.line.address = none →
    t.past = t.start + 1
  address : ∀ t ∈ tiles, t.line.address.toNat = (origin.toNat + t.start) % 65536

/-- Every file can be tiled. -/
def Tiles : Prop := ∀ (cells : Array κ) (origin : Word), ∃ tiles, d.Tiling cells origin tiles

/-- Every instruction takes one to four cells. -/
def Bounded : Prop :=
  ∀ s address text length, d.decode s address = some (text, length) → 0 < length ∧ length ≤ 4

/-! ## One tile -/

variable {d cells origin} {pos past : Nat} {t : Tile} {ts : List Tile}

/-- There are tiles as far as there are cells. -/
theorem tileAt?_eq_none_iff : d.tileAt? cells origin pos = none ↔ cells.size ≤ pos := by
  unfold tileAt?
  split
  next hin => simp [hin]
  next hout => simp [Nat.le_of_not_lt hout]

/-- A tile begins where it is read, and ends behind the cells that its text has
taken. -/
theorem tileAt?_eq_some_iff : d.tileAt? cells origin pos = some t ↔
    pos < cells.size ∧
      t = ⟨⟨origin + UInt16.ofNat pos, (d.textAt cells origin pos).1, d.decimal⟩, pos,
        pos + (d.textAt cells origin pos).2⟩ := by
  unfold tileAt?
  split
  next hin => simp [hin, eq_comm]
  next hout => simp [hout]

theorem start_of_tileAt? (h : d.tileAt? cells origin pos = some t) : t.start = pos := by
  rw [(tileAt?_eq_some_iff.mp h).2]

/-- A line covers one to four cells, whether there is an instruction or not. -/
theorem Bounded.advances (hd : d.Bounded) (h : d.tileAt? cells origin pos = some t) :
    pos < t.past ∧ t.past ≤ pos + 4 := by
  have hlength : 0 < (d.textAt cells origin pos).2 ∧ (d.textAt cells origin pos).2 ≤ 4 := by
    unfold textAt
    split
    next heq => exact hd _ _ _ _ heq
    next => exact ⟨Nat.one_pos, Nat.le_add_left 1 3⟩
  rw [(tileAt?_eq_some_iff.mp h).2]
  show pos < pos + _ ∧ pos + _ ≤ pos + 4
  omega

/-- Cells that mean nothing are shown one by one. -/
theorem past_of_undecodable (h : d.tileAt? cells origin pos = some t)
    (hnone : d.decode (.ofArray cells t.start) t.line.address = none) : t.past = t.start + 1 := by
  obtain ⟨-, rfl⟩ := tileAt?_eq_some_iff.mp h
  have htext : d.textAt cells origin pos = (d.unknown (cells.getD pos default), 1) := by
    unfold textAt
    simp only at hnone
    rw [hnone]
  show pos + (d.textAt cells origin pos).2 = pos + 1
  rw [htext]

/-! ## Reading on -/

/-- Each tile was read where it starts. -/
theorem Reads.tileAt? (h : d.Reads cells origin pos ts past) :
    ∀ t ∈ ts, d.tileAt? cells origin t.start = some t := by
  induction h with
  | nothing => exact fun t ht => absurd ht List.not_mem_nil
  | tile hread hrest ih =>
    intro t ht
    obtain rfl | htail := List.mem_cons.mp ht
    · rwa [start_of_tileAt? hread]
    · exact ih t htail

/-- The first tile is at the position that is read from. -/
theorem Reads.head (h : d.Reads cells origin pos ts past) : ∀ t ∈ ts.head?, t.start = pos := by
  cases h with
  | nothing => exact fun t ht => absurd ht (by simp)
  | tile hread hrest =>
    rintro _ ⟨rfl⟩
    exact start_of_tileAt? hread

/-- Each tile begins where the one before it ends. -/
theorem Reads.isChain (h : d.Reads cells origin pos ts past) :
    ts.IsChain fun t next => next.start = t.past := by
  induction h with
  | nothing => exact .nil
  | tile hread hrest ih => exact List.isChain_cons.mpr ⟨hrest.head, ih⟩

/-- There are no more tiles than cells. -/
theorem Reads.length_le (hd : d.Bounded) (h : d.Reads cells origin pos ts past) :
    ts.length ≤ cells.size - pos := by
  induction h with
  | nothing => exact Nat.zero_le _
  | tile hread hrest ih =>
    have hin := (tileAt?_eq_some_iff.mp hread).1
    have hpast := hd.advances hread
    rw [List.length_cons]
    omega

/-- Reading goes on, never back. -/
theorem Reads.le (hd : d.Bounded) (h : d.Reads cells origin pos ts past) : pos ≤ past := by
  induction h with
  | nothing => exact Nat.le_refl _
  | tile hread hrest ih =>
    have hpast := hd.advances hread
    omega

/-- What lies between the two positions is covered once, and nothing else. -/
theorem Reads.countP (hd : d.Bounded) (h : d.Reads cells origin pos ts past) (i : Nat) :
    ts.countP (·.covers i) = if pos ≤ i ∧ i < past then 1 else 0 := by
  induction h with
  | nothing => simp
  | @tile pos past t ts hread hrest ih =>
    have hstart := start_of_tileAt? hread
    have hpast := hd.advances hread
    have hle := hrest.le hd
    -- the first tile covers `i`, or one of the others does
    rw [List.countP_cons, ih]
    unfold Tile.covers
    simp only [hstart, decide_eq_true_eq]
    split <;> split <;> split <;> omega

/-- Behind all tiles but the last another one was read. -/
theorem Reads.fits (h : d.Reads cells origin pos ts past) :
    ∀ t ∈ ts.dropLast, t.past ≤ cells.size := by
  induction h with
  | nothing => exact fun t ht => absurd ht List.not_mem_nil
  | tile hread hrest ih =>
    cases hrest with
    | nothing => exact fun t ht => absurd ht List.not_mem_nil
    | tile hread' hrest' =>
      intro t ht
      rw [List.dropLast_cons_cons] at ht
      obtain rfl | htail := List.mem_cons.mp ht
      · exact Nat.le_of_lt (tileAt?_eq_some_iff.mp hread').1
      · exact ih t htail

/-- Reading ends behind the last cell, and has read the lines of the walk. -/
theorem Bounded.exists_reads (hd : d.Bounded) (cells : Array κ) (origin : Word) (pos : Nat) :
    ∃ ts past, d.Reads cells origin pos ts past ∧ d.tileAt? cells origin past = none ∧
      d.walk cells origin pos = ts.map Tile.line := by
  -- by the recursion of the walk, which makes sure itself that it gets ahead
  induction pos using Dialect.walk.induct d cells origin with
  | case1 pos hin text length htext ih =>
    obtain ⟨ts, past, hreads, hend, hwalk⟩ := ih
    let t : Tile := ⟨⟨origin + UInt16.ofNat pos, text, d.decimal⟩, pos, pos + length⟩
    have hread : d.tileAt? cells origin pos = some t :=
      tileAt?_eq_some_iff.mpr ⟨hin, by rw [htext]⟩
    have hahead : max 1 length = length := by
      have hpast : pos < pos + length := (hd.advances hread).1
      omega
    rw [hahead] at hreads hwalk
    refine ⟨t :: ts, past, .tile hread hreads, hend, ?_⟩
    rw [walk, if_pos hin, htext]
    show _ :: d.walk cells origin (pos + max 1 length) = _
    rw [hahead, hwalk]
    rfl
  | case2 pos hout =>
    refine ⟨[], pos, .nothing, tileAt?_eq_none_iff.mpr (Nat.le_of_not_lt hout), ?_⟩
    rw [walk, if_neg hout]
    rfl

/-- A decoder that takes one to four cells for an instruction tiles every
file. -/
theorem Bounded.tiles (hd : d.Bounded) : d.Tiles := by
  intro cells origin
  obtain ⟨ts, past, hreads, hend, hlines⟩ := hd.exists_reads cells origin 0
  have hall : cells.size ≤ past := tileAt?_eq_none_iff.mp hend
  have hinside : ∀ t ∈ ts, t.start < cells.size :=
    fun t ht => (tileAt?_eq_some_iff.mp (hreads.tileAt? t ht)).1
  refine ⟨ts, ?_⟩
  exact {
    lines := hlines
    reads := ⟨past, hreads, hend⟩
    length_le := hreads.length_le hd
    starts := hreads.head
    consecutive := hreads.isChain
    once := by
      intro i hi
      rw [hreads.countP hd i, if_pos ⟨Nat.zero_le i, Nat.lt_of_lt_of_le hi hall⟩]
    inside := hinside
    fits := hreads.fits
    overhang := by
      intro t ht
      have hstart := hinside t ht
      have hpast := hd.advances (hreads.tileAt? t ht)
      omega
    alone := fun t ht => past_of_undecodable (hreads.tileAt? t ht)
    address := by
      intro t ht
      have hline := (tileAt?_eq_some_iff.mp (hreads.tileAt? t ht)).2
      have haddress : t.line.address = origin + UInt16.ofNat t.start := by
        rw [hline]
      rw [haddress, UInt16.toNat_add, UInt16.toNat_ofNat']
      omega }

/-! ## The five machines -/

omit [Inhabited κ] in
/-- A dialect is bounded if its decoder is. -/
theorem bounded_of_decode {d : Dialect κ} {ι : Type} {text : Word → ι → String}
    (decode : Stream κ → Except Undecodable (Decoded ι))
    (hdecode : ∀ s address, d.decode s address = ofDecoded (text address) (decode s))
    (hbounds : ∀ s i, decode s = .ok i → 0 < i.length ∧ i.length ≤ 4) : d.Bounded := by
  intro s address shown length h
  rw [hdecode] at h
  cases hread : decode s with
  | error u =>
    rw [hread] at h
    cases h
  | ok i =>
    rw [hread] at h
    cases h
    exact hbounds s i hread

/-- Every instruction of the 8080 has one to three bytes, which is within the bound. -/
theorem bounded_i8080 : i8080.Bounded :=
  bounded_of_decode (fun s => .ok (I8080.decode s)) (fun _ _ => rfl) fun s i h => by
    cases h
    exact ⟨I8080.decode_length_pos s, Nat.le_succ_of_le (I8080.decode_length_le s)⟩

theorem bounded_z80 : z80.Bounded :=
  bounded_of_decode Z80.decode (fun _ _ => rfl) fun _ _ h =>
    ⟨Z80.decode_length_pos h, Z80.decode_length_le h⟩

theorem bounded_lr35902 : lr35902.Bounded :=
  bounded_of_decode Lr35902.decode (fun _ _ => rfl) fun _ _ h =>
    ⟨Lr35902.decode_length_pos h, Nat.le_succ_of_le (Lr35902.decode_length_le h)⟩

theorem bounded_lmc : lmc.Bounded :=
  bounded_of_decode Lmc.decode (fun _ _ => rfl) fun _ _ h => by
    rw [Lmc.decode_length h]
    decide

theorem bounded_synacor : synacor.Bounded :=
  bounded_of_decode Synacor.decode (fun _ _ => rfl) fun _ _ h =>
    ⟨Synacor.decode_length_pos h, Synacor.decode_length_le h⟩

end Dialect

/-- **The disassembly walk ends and tiles its file**, on every machine, for every
file and from every origin. -/
theorem disassembly_tiles :
    Dialect.i8080.Tiles ∧ Dialect.z80.Tiles ∧ Dialect.lr35902.Tiles ∧ Dialect.lmc.Tiles ∧
      Dialect.synacor.Tiles :=
  ⟨Dialect.bounded_i8080.tiles, Dialect.bounded_z80.tiles, Dialect.bounded_lr35902.tiles,
    Dialect.bounded_lmc.tiles, Dialect.bounded_synacor.tiles⟩

end Retrocore
