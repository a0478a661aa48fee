import Retrocore.Memory

/-!
# What a read leaves behind

Behind a mapper a read may change what it looks at. `Memory.Looked` says that a
memory comes from another by reads alone, and `Memory.Quiet` is the case in which
reads change nothing, as they do where there is no mapper (`quiet_of_unmapped`) or
only one that drops writes. A quiet memory is the same after any number of reads,
and its stream gives what stands in the cells one by one.

`Tally` is a mapper that is not quiet: a register that counts how often it is
read.
-/

namespace Retrocore

namespace Memory

variable {μ κ : Type} [Inhabited κ] [Mapper μ κ] {m m' : Memory μ κ}

/-! ## Reads one after the other -/

/-- A stream begins with the cell that it is read from. -/
theorem stream_zero (m : Memory μ κ) (start : Word) : m.stream start 0 = m.value start := by
  show m.value (start + 0) = m.value start
  rw [UInt16.add_zero]

/-- One memory comes from another by reads over the bus. -/
inductive Looked (m : Memory μ κ) : Memory μ κ → Prop
  | refl : Looked m m
  | read {m' : Memory μ κ} (h : Looked m m') (a : Word) : Looked m (m'.afterRead a)

/-- A run of reads is nothing but reads. -/
theorem Looked.reads (h : m.Looked m') (start : Word) (n : Nat) :
    m.Looked (m'.afterReads start n) := by
  induction n with
  | zero => exact h
  | succ n ih => exact ih.read _

theorem Looked.trans {m'' : Memory μ κ} (h : m.Looked m') (h' : m'.Looked m'') :
    m.Looked m'' := by
  induction h' with
  | refl => exact h
  | read _ a ih => exact ih.read a

/-- What every read keeps is kept. -/
theorem Looked.keeps {P : Memory μ κ → Prop} (hread : ∀ m a, P m → P (m.afterRead a))
    (h : m.Looked m') (hm : P m) : P m' := by
  induction h with
  | refl => exact hm
  | read _ a ih => exact hread _ a ih

/-! ## Quiet memories -/

/-- Reads change nothing. -/
def Quiet (m : Memory μ κ) : Prop := ∀ a, m.afterRead a = m

/-- Only a mapper could make anything of a read. -/
theorem quiet_of_unmapped (h : m.mapper = none) : m.Quiet := by
  obtain ⟨cells, mapper⟩ := m
  cases h
  exact fun _ => rfl

/-- Without a mapper the cells themselves answer. -/
theorem value_of_unmapped (h : m.mapper = none) (a : Word) : m.value a = m.cells.read a := by
  obtain ⟨cells, mapper⟩ := m
  cases h
  rfl

/-- Read-only memory drops writes, but reads leave no trace on it. -/
theorem quiet_of_readOnly (m : Memory ReadOnlyRange κ) : m.Quiet := by
  obtain ⟨cells, mapper⟩ := m
  cases mapper with
  | none => exact fun _ => rfl
  | some range => exact fun _ => rfl

/-- Whatever is read of a quiet memory, it stays the same. -/
theorem Quiet.looked (hquiet : m.Quiet) (h : m.Looked m') : m' = m :=
  h.keeps (P := (· = m)) (fun _ a heq => heq ▸ hquiet a) rfl

theorem Quiet.afterReads (hquiet : m.Quiet) (start : Word) (n : Nat) :
    m.afterReads start n = m :=
  hquiet.looked (Looked.refl.reads start n)

/-- The cells are found one by one as they stand. -/
theorem Quiet.stream (hquiet : m.Quiet) (start : Word) (i : Nat) :
    m.stream start i = m.value (start + UInt16.ofNat i) := by
  show (m.afterReads start i).value _ = _
  rw [hquiet.afterReads]

/-- The two reads of a word find the same memory. -/
theorem Quiet.readWord {m : Memory μ Byte} [Mapper μ Byte] (hquiet : m.Quiet) (a : Word) :
    m.readWord a = (wordOf (m.value (a + 1)) (m.value a), m) := by
  show (wordOf ((m.afterRead a).value (a + 1)) (m.value a), (m.afterRead a).afterRead (a + 1)) = _
  rw [hquiet a, hquiet (a + 1)]

end Memory

/-! ## A register that counts -/

/-- Answers the reads of one address with the number of reads so far. A write to
that address sets the number; everything else goes straight to the cells. -/
structure Tally (κ : Type) where
  register : Word
  count : κ
  deriving DecidableEq, Repr

namespace Tally

instance {κ : Type} [Inhabited κ] [Add κ] [OfNat κ 1] : Mapper (Tally κ) κ where
  read t cells a :=
    if a = t.register then (t.count + 1, { t with count := t.count + 1 }, cells)
    else (cells.read a, t, cells)
  write t cells a v :=
    if a = t.register then ({ t with count := v }, cells) else (t, cells.write a v)

/-- Whoever looks at the register changes it. -/
theorem not_quiet (cells : Cells Byte) (t : Tally Byte) :
    ¬ (⟨cells, some t⟩ : Memory (Tally Byte) Byte).Quiet := by
  intro hquiet
  have hread : (⟨cells, some t⟩ : Memory (Tally Byte) Byte).afterRead t.register =
      ⟨cells, some { t with count := t.count + 1 }⟩ := by
    simp [Memory.afterRead, Memory.read, Mapper.read]
  have hcount : t.count + 1 = t.count := by
    simpa using congrArg (·.mapper.elim 0 Tally.count) (hread.symm.trans (hquiet t.register))
  exact absurd (UInt8.add_eq_left.mp hcount) (by decide)

example :
    let m : Memory (Tally Byte) Byte := ⟨⟨#[7]⟩, some ⟨0xff00, 0x10⟩⟩
    m.value 0xff00 = 0x11 ∧ (m.afterReads 0xff00 1).value 0xff00 = 0x12 ∧
      (m.afterReads 0xfe00 9).value 0xff00 = 0x11 := by
  decide

end Tally

end Retrocore
