import Retrocore.Disassembly
import Retrocore.Proofs.Disassembly.Loading
import Retrocore.Proofs.Frames.I8080
import Retrocore.Proofs.Frames.Z80
import Retrocore.Proofs.Frames.Lr35902
import Retrocore.Proofs.Frames.Words
import Retrocore.Lr35902.Step

/-!
# The executor runs what the disassembler shows

A processor reads live memory through a program counter that wraps, the
disassembler a file followed by zeros. `runs_as_shown` says that for a file
loaded into an otherwise empty memory this makes no difference: at the address
of every line, the processor decodes what the line shows, fails where the line
shows that nothing can be decoded, and goes on at the next line unless the
instruction leads elsewhere.

`Executor` gathers what the five machines have to provide for that, and
`Executor.faithful` is the argument, made once.
-/

namespace Retrocore

/-! ## Executors -/

/-- A machine of type `σ` with cells of type `κ` and instructions of type `ι`,
seen as something that executes a disassembled file. -/
structure Executor (μ κ ι σ : Type) [Inhabited κ] [Mapper μ κ] [Core σ] where
  dialect : Dialect κ
  decode : Stream κ → Except Undecodable (Decoded ι)
  /-- The text of an instruction at an address. -/
  text : Word → ι → String
  /-- The size of the memory. -/
  size : Nat
  memory : σ → Memory μ κ
  /-- Neither halted nor about to service an interrupt. -/
  Ready : σ → Prop
  /-- What the next step does with an instruction that it has decoded. -/
  perform : σ → Decoded ι → Ran σ
  /-- The instruction may lead elsewhere than behind itself. -/
  Leaps : σ → ι → Prop
  bus : size ≤ 65536
  dialect_eq : ∀ s address,
    dialect.decode s address = Dialect.ofDecoded (text address) (decode s)
  congr : ∀ {s t : Stream κ}, s.AgreeAtStart t → decode s = decode t
  length_pos : ∀ {s d}, decode s = .ok d → 0 < d.length
  step_ok : ∀ {m d}, Ready m → decode ((memory m).stream (Core.pc m)) = .ok d →
    Core.step m = perform m d
  step_error : ∀ {m u}, Ready m →
    decode ((memory m).stream (Core.pc m)) = .error u →
    (Core.step m).result = .error u.fault
  pc_perform : ∀ {m d}, decode ((memory m).stream (Core.pc m)) = .ok d →
    ¬ Leaps m d.instruction →
    (Core.pc m).toNat < size →
    Core.pc (perform m d).state = Core.pc m + UInt16.ofNat d.length

namespace Executor

variable {μ κ ι σ : Type} [Inhabited κ] [Mapper μ κ] [Core σ]

/-- What the next step of the machine decodes. -/
def fetched (e : Executor μ κ ι σ) (m : σ) : Except Undecodable (Decoded ι) :=
  e.decode ((e.memory m).stream (Core.pc m))

/-- The next step of a machine does what a line shows that covers the given
number of cells from a position in the file. -/
def RunsAsShown (e : Executor μ κ ι σ) (m : σ) (image : Array κ) (pos : Nat)
    (line : Line) (cells : Nat) : Prop :=
  match e.fetched m with
  | .ok d =>
    e.dialect.decode (.ofArray image pos) line.address = some (line.text, cells) ∧
    line.text = e.text line.address d.instruction ∧
    d.length = cells ∧
    Core.step m = e.perform m d ∧
    (¬ e.Leaps m d.instruction → (Core.step m).fault? = none →
      Core.pc (Core.step m).state = line.address + UInt16.ofNat cells)
  | .error u =>
    e.dialect.decode (.ofArray image pos) line.address = none ∧
    line.text = e.dialect.unknown (image.getD pos default) ∧
    cells = 1 ∧
    (Core.step m).result = .error (.unrecognizedOpcode u.opcode u.table)

/-- Every line of every file shows what a machine does that has the file in its
memory and is about to go on at the line's address. Each line covers the cells
up to where the rest of the walk starts, so the next line, if there is one, has
the address behind them. -/
def Faithful (e : Executor μ κ ι σ) : Prop :=
  ∀ (image : Array κ) (origin : Word) (before : List Line) (line : Line)
    (after : List Line),
    origin.toNat + image.size + 3 ≤ e.size →
    e.dialect.disassemble image origin = before ++ line :: after →
    ∃ pos cells, pos < image.size ∧ line.address = origin + UInt16.ofNat pos ∧
      after = e.dialect.walk image origin (pos + cells) ∧
      (∀ next ∈ after.head?, next.address = line.address + UInt16.ofNat cells) ∧
      ∀ m, e.memory m = loaded e.size image origin → e.Ready m →
        Core.pc m = line.address →
        e.RunsAsShown m image pos line cells

end Executor

/-! ## Lines -/

/-- Every line of a walk stands at some position of the file, and the walk goes
on behind it. -/
theorem Dialect.walk_eq_append {κ : Type} [Inhabited κ] {d : Dialect κ}
    {image : Array κ}
    {origin : Word} {start : Nat} {before after : List Line} {line : Line}
    (h : d.walk image origin start = before ++ line :: after) :
    ∃ pos, pos < image.size ∧
      line = ⟨origin + UInt16.ofNat pos, (d.textAt image origin pos).1, d.decimal⟩ ∧
      after = d.walk image origin (pos + max 1 (d.textAt image origin pos).2) := by
  -- the walk loses its first line with each line that stands before
  induction before generalizing start with
  | nil =>
    rw [walk] at h
    split at h
    next hin =>
      obtain ⟨hline, hafter⟩ := List.cons.inj h
      exact ⟨start, hin, hline.symm, hafter.symm⟩
    next => cases h
  | cons first before ih =>
    rw [walk] at h
    split at h
    next =>
      obtain ⟨_, hrest⟩ := List.cons.inj h
      exact ih hrest
    next => cases h

/-- The first line of a walk has the address of its first cell. -/
theorem Dialect.address_head {κ : Type} [Inhabited κ] {d : Dialect κ}
    {image : Array κ} {origin : Word} {pos cells : Nat} {next : Line}
    (h : next ∈ (d.walk image origin (pos + cells)).head?) :
    next.address = origin + UInt16.ofNat pos + UInt16.ofNat cells := by
  rw [walk] at h
  split at h
  next =>
    cases h
    show origin + UInt16.ofNat (pos + cells) = _
    rw [UInt16.ofNat_add, UInt16.add_assoc]
  next => cases h

namespace Executor

variable {μ κ ι σ : Type} [Inhabited κ] [Mapper μ κ] [Core σ] (e : Executor μ κ ι σ)

/-- The processor and the disassembler decode the same at a position of a loaded
file. -/
theorem fetched_eq {m : σ} {image : Array κ} {origin : Word} {pos : Nat}
    (hfit : origin.toNat + image.size + 3 ≤ e.size) (hpos : pos < image.size)
    (hmemory : e.memory m = loaded e.size image origin)
    (hpc : Core.pc m = origin + UInt16.ofNat pos) :
    e.fetched m = e.decode (.ofArray image pos) := by
  unfold fetched
  rw [hmemory, hpc]
  exact e.congr (stream_loaded e.bus hfit hpos)

/-- Where an instruction can be decoded, it is what the line shows and what the
machine runs. -/
theorem runsAsShown_ok {m : σ} {image : Array κ} {pos : Nat} {line : Line}
    {d : Decoded ι} (hready : e.Ready m) (hfetched : e.fetched m = .ok d)
    (hshown : e.dialect.decode (.ofArray image pos) line.address =
      some (line.text, d.length))
    (htext : line.text = e.text line.address d.instruction)
    (hpc : Core.pc m = line.address)
    (hin : (Core.pc m).toNat < e.size) :
    e.RunsAsShown m image pos line d.length := by
  unfold RunsAsShown
  rw [hfetched]
  have hstep := e.step_ok hready hfetched
  refine ⟨hshown, htext, rfl, hstep, ?_⟩
  intro hleaps _
  rw [hstep, e.pc_perform hfetched hleaps hin, hpc]

/-- Where none can be decoded, the line shows the bare cell and the machine
fails. -/
theorem runsAsShown_error {m : σ} {image : Array κ} {pos : Nat} {line : Line}
    {u : Undecodable} (hready : e.Ready m) (hfetched : e.fetched m = .error u)
    (hshown : e.dialect.decode (.ofArray image pos) line.address = none)
    (htext : line.text = e.dialect.unknown (image.getD pos default)) :
    e.RunsAsShown m image pos line 1 := by
  unfold RunsAsShown
  rw [hfetched]
  exact ⟨hshown, htext, rfl, e.step_error hready hfetched⟩

/-- An executor runs what the disassembler shows. -/
theorem faithful : e.Faithful := by
  intro image origin before line after hfit hwalk
  obtain ⟨pos, hpos, rfl, hafter⟩ := Dialect.walk_eq_append hwalk
  have hshown := e.dialect_eq (.ofArray image pos) (origin + UInt16.ofNat pos)
  have hin : (origin + UInt16.ofNat pos).toNat < e.size := by
    have hbus := e.bus
    simp only [UInt16.toNat_add, UInt16.toNat_ofNat']
    omega
  cases hdecode : e.decode (.ofArray image pos) with
  | ok d =>
    rw [hdecode] at hshown
    have hline : e.dialect.textAt image origin pos =
        (e.text (origin + UInt16.ofNat pos) d.instruction, d.length) := by
      rw [Dialect.textAt, hshown]
      rfl
    -- the walk would go on by one cell even behind an empty instruction
    have hpositive : max 1 d.length = d.length :=
      Nat.max_eq_right (e.length_pos hdecode)
    rw [hline] at hafter ⊢
    have hafter : after = e.dialect.walk image origin (pos + d.length) :=
      hpositive ▸ hafter
    refine ⟨pos, d.length, hpos, rfl, hafter, ?_, ?_⟩
    · intro next hnext
      exact Dialect.address_head (hafter ▸ hnext)
    intro m hmemory hready hpc
    have hfetched := (e.fetched_eq hfit hpos hmemory hpc).trans hdecode
    exact e.runsAsShown_ok hready hfetched hshown rfl hpc (hpc ▸ hin)
  | error u =>
    rw [hdecode] at hshown
    have hline : e.dialect.textAt image origin pos =
        (e.dialect.unknown (image.getD pos default), 1) := by
      rw [Dialect.textAt, hshown]
      rfl
    rw [hline] at hafter ⊢
    refine ⟨pos, 1, hpos, rfl, hafter, ?_, ?_⟩
    · intro next hnext
      exact Dialect.address_head (hafter ▸ hnext)
    intro m hmemory hready hpc
    have hfetched := (e.fetched_eq hfit hpos hmemory hpc).trans hdecode
    exact e.runsAsShown_error hready hfetched hshown rfl

end Executor

end Retrocore
