import Retrocore.Word

/-!
# Memory

A memory is a row of cells behind an address bus. The bus is truncated: an
address counts modulo the number of cells, and a memory without cells reads as
zero and ignores writes. A mapper may stand between the bus and the cells; it
answers every read and takes every write, and reaches the cells beneath it
directly. A read may change the mapper and the cells no less than a write, as
where a register counts how often it has been looked at; so a read gives a value
and a memory. `ReadOnlyRange` is the mapper that turns part of the memory into
ROM.
-/

namespace Retrocore

/-- The cells themselves, without any mapper. -/
structure Cells (κ : Type) where
  row : Array κ
  deriving Repr

namespace Cells

variable {κ : Type}

def size (c : Cells κ) : Nat := c.row.size

/-- The cell that an index falls on once it is wrapped round the row. -/
def read [Inhabited κ] (c : Cells κ) (a : Word) : κ := c.row.getD (a.toNat % c.row.size) default

/-- Stores at an index of any size, wrapped round the row. -/
def put (c : Cells κ) (i : Nat) (v : κ) : Cells κ :=
  ⟨c.row.setIfInBounds (i % c.row.size) v⟩

def write (c : Cells κ) (a : Word) (v : κ) : Cells κ := c.put a.toNat v

/-- The cells from one address up to, but not including, another. Both are cut
off at the end of the row; a slice never wraps. -/
def slice (c : Cells κ) (first past : Word) : List κ :=
  (c.row.extract first.toNat past.toNat).toList

/-- Puts more cells behind the last one. -/
def append (c : Cells κ) (more : List κ) : Cells κ := ⟨c.row ++ more⟩

/-- Stores consecutive values from an index on, going round as often as
needed. -/
def loadFrom (c : Cells κ) : Nat → List κ → Cells κ
  | _, [] => c
  | i, v :: vs => (c.put i v).loadFrom (i + 1) vs

@[simp] theorem size_put (c : Cells κ) (i : Nat) (v : κ) : (c.put i v).size = c.size := by
  simp [put, size]

@[simp] theorem size_write (c : Cells κ) (a : Word) (v : κ) : (c.write a v).size = c.size :=
  size_put ..

/-- Loading goes round the cells and adds none. -/
@[simp] theorem size_loadFrom (c : Cells κ) (i : Nat) (vs : List κ) :
    (c.loadFrom i vs).size = c.size := by
  induction vs generalizing c i with
  | nil => rfl
  | cons v vs ih => simp [loadFrom, ih]

end Cells

/-- What stands between the address bus and the cells. A read gives its answer,
and both a read and a write give the mapper and the cells as they are
afterwards. -/
class Mapper (μ : Type) (κ : Type) where
  read : μ → Cells κ → Word → κ × μ × Cells κ
  write : μ → Cells κ → Word → κ → μ × Cells κ

/-- The type of mappers of a machine that has none. -/
instance {κ : Type} : Mapper Empty κ where
  read m := nomatch m
  write m := nomatch m

structure Memory (μ : Type) (κ : Type) where
  cells : Cells κ
  mapper : Option μ := none

namespace Memory

variable {μ κ : Type}

def empty : Memory μ κ := ⟨⟨#[]⟩, none⟩

/-- A memory of the given number of zero cells. -/
def zeros [Inhabited κ] (size : Nat) : Memory μ κ := ⟨⟨Array.replicate size default⟩, none⟩

def ofList (cells : List κ) : Memory μ κ := ⟨⟨cells.toArray⟩, none⟩

def size (m : Memory μ κ) : Nat := m.cells.size

/-- A read as the machine makes it, through the mapper: what it answers, and the
memory afterwards. -/
def read [Inhabited κ] [Mapper μ κ] (m : Memory μ κ) (a : Word) : κ × Memory μ κ :=
  match m with
  | ⟨cells, none⟩ => (cells.read a, ⟨cells, none⟩)
  | ⟨cells, some mapper⟩ =>
    let (v, mapper, cells) := Mapper.read mapper cells a
    (v, ⟨cells, some mapper⟩)

/-- A write as the machine makes it, through the mapper. -/
def write [Mapper μ κ] (m : Memory μ κ) (a : Word) (v : κ) : Memory μ κ :=
  match m with
  | ⟨cells, none⟩ => ⟨cells.write a v, none⟩
  | ⟨cells, some mapper⟩ =>
    let (mapper, cells) := Mapper.write mapper cells a v
    ⟨cells, some mapper⟩

/-- A read past any mapper. -/
def directRead [Inhabited κ] (m : Memory μ κ) (a : Word) : κ := m.cells.read a

/-- A write past any mapper. -/
def directWrite (m : Memory μ κ) (a : Word) (v : κ) : Memory μ κ :=
  let ⟨cells, mapper⟩ := m
  ⟨cells.write a v, mapper⟩

def slice (m : Memory μ κ) (first past : Word) : List κ := m.cells.slice first past

def append (m : Memory μ κ) (more : List κ) : Memory μ κ :=
  { m with cells := m.cells.append more }

/-- Stores a run of values from an address on, past any mapper. -/
def load (m : Memory μ κ) (values : List κ) (start : Word) : Memory μ κ :=
  let ⟨cells, mapper⟩ := m
  ⟨cells.loadFrom start.toNat values, mapper⟩

def attach (m : Memory μ κ) (mapper : μ) : Memory μ κ := { m with mapper := some mapper }

def detach (m : Memory μ κ) : Memory μ κ := { m with mapper := none }

def isMapped (m : Memory μ κ) : Bool := m.mapper.isSome

/-- A memory in one line: its size and whether a mapper is attached. -/
def describe (m : Memory μ κ) : String :=
  s!"Memory \x7b size: {m.size}, mapped: {m.isMapped} \x7d"

/-- What a read of an address would answer. -/
def value [Inhabited κ] [Mapper μ κ] (m : Memory μ κ) (a : Word) : κ := (m.read a).1

/-- The memory once an address has been read. -/
def afterRead [Inhabited κ] [Mapper μ κ] (m : Memory μ κ) (a : Word) : Memory μ κ := (m.read a).2

/-- The memory once so many addresses have been read one after the other, round
and round the address space. -/
def afterReads [Inhabited κ] [Mapper μ κ] (m : Memory μ κ) (start : Word) : Nat → Memory μ κ
  | 0 => m
  | n + 1 => (m.afterReads start n).afterRead (start + UInt16.ofNat n)

/-- What reads from an address on answer one after the other, as an endless
stream. Each finds the memory as the reads before it have left it. -/
def stream [Inhabited κ] [Mapper μ κ] (m : Memory μ κ) (start : Word) (i : Nat) : κ :=
  (m.afterReads start i).value (start + UInt16.ofNat i)

/-- Reads the little-endian word at an address, low byte first. -/
def readWord [Mapper μ Byte] (m : Memory μ Byte) (a : Word) : Word × Memory μ Byte :=
  let (low, m) := m.read a
  let (high, m) := m.read (a + 1)
  (wordOf high low, m)

/-- Stores a word, low byte first. -/
def writeWord [Mapper μ Byte] (m : Memory μ Byte) (a : Word) (v : Word) : Memory μ Byte :=
  (m.write a (lowByte v)).write (a + 1) (highByte v)

@[simp] theorem size_directWrite (m : Memory μ κ) (a : Word) (v : κ) :
    (m.directWrite a v).size = m.size := Cells.size_write ..

@[simp] theorem size_load (m : Memory μ κ) (vs : List κ) (a : Word) :
    (m.load vs a).size = m.size := Cells.size_loadFrom ..

end Memory

/-! ## Read-only memory -/

/-- Drops writes to the addresses from `first` up to, but not including, `past`,
and counts them. Everything else goes straight to the cells. The addresses are
those on the bus, before they wrap. -/
structure ReadOnlyRange where
  first : Nat
  past : Nat
  ignored : Nat := 0
  deriving DecidableEq, Repr

namespace ReadOnlyRange

def covers (r : ReadOnlyRange) (a : Word) : Bool := r.first ≤ a.toNat && a.toNat < r.past

instance {κ : Type} [Inhabited κ] : Mapper ReadOnlyRange κ where
  read r cells a := (cells.read a, r, cells)
  write r cells a v :=
    if r.covers a then ({ r with ignored := r.ignored + 1 }, cells) else (r, cells.write a v)

end ReadOnlyRange

end Retrocore
