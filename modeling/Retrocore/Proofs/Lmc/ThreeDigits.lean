import Retrocore.Proofs.Frames.Words
import Retrocore.Proofs.Operations

/-!
# Numbers of three digits

The little man counts modulo 1000, in an accumulator and mailboxes of sixteen
bits, and nothing keeps the mailboxes from holding larger numbers to begin with,
or observers from answering with them. Whatever he takes into the accumulator is
cut down to three digits first, and only the accumulator is ever stored. So the
sums and differences that he forms fit into sixteen bits and are right modulo
1000 (`Exact`), and only numbers that were there from the start can be larger
(`Small`).

The flag that says whether he went below zero is that of the last instruction
which counts (`Counted`): an addition, a load or an input clears it, and a
subtraction sets it if it takes away more than there was. `three_digits` says so
of every run.
-/

namespace Retrocore.Lmc

open Operable

/-- What is left modulo 1000 has three digits. -/
theorem mod_modulus_le (v : Word) : v % modulus ≤ maxValue := by
  rw [UInt16.le_iff_toNat_le, UInt16.toNat_mod]
  exact Nat.le_of_lt_succ (Nat.mod_lt _ (by decide))

/-- Numbers are cut down to three digits. -/
theorem toNat_mod_modulus (v : Word) : (v % modulus).toNat = v.toNat % 1000 :=
  UInt16.toNat_mod v modulus

/-- A branch leads to one of the mailboxes. -/
def Instruction.target? : Instruction → Option Byte
  | .bra box | .brz box | .brp box => some box
  | _ => none

/-- The box that an instruction names is one of the hundred. -/
theorem Instruction.target_lt {word : Word} {i : Instruction} (h : ofWord? word = some i)
    {box : Byte} (hbox : i.target? = some box) : box.toNat < mailboxes := by
  have hrest : (word % 100).toUInt8.toNat < mailboxes := by
    rw [UInt16.toNat_toUInt8, UInt16.toNat_mod]
    exact Nat.lt_of_le_of_lt (Nat.mod_le _ _) (Nat.mod_lt _ (by decide))
  unfold ofWord? at h
  dsimp only at h
  repeat' split at h
  -- three of the opcodes are branches, and all others contradict `hbox`
  all_goals
    cases h
  all_goals
    cases hbox
  all_goals
    exact hrest

/-- An instruction that decides about the sign, as it was executed. -/
inductive Counted where
  | added
  /-- Whether more was taken away than there was. -/
  | subtracted (short : Bool)
  | loaded
  /-- A number came in. -/
  | given
  deriving DecidableEq, Repr

/-- Whether the accumulator has gone below zero. -/
def Counted.isNegative : Counted → Bool
  | .subtracted short => short
  | .added | .loaded | .given => false

/-- The latest count decides about the sign. -/
theorem Counted.isNegative_iff (c : Counted) : c.isNegative = true ↔ c = .subtracted true := by
  cases c <;> simp [isNegative]

/-! ## Mailboxes -/

/-- An unmapped memory as it was, but for numbers of three digits in some of its
cells. -/
structure Kept {μ : Type} (initial memory : Memory μ Word) : Prop where
  unmapped : memory.mapper = none
  size : memory.size = initial.size
  cells : ∀ (i : Nat) (v : Word), memory.cells.row[i]? = some v →
    initial.cells.row[i]? = some v ∨ v ≤ maxValue

section

variable {μ : Type} [Mapper μ Word] {initial memory : Memory μ Word}

/-- Without a mapper reads change nothing. -/
theorem Kept.quiet (h : Kept initial memory) : memory.Quiet := Memory.quiet_of_unmapped h.unmapped

/-- So reading leaves the boxes alone. -/
theorem Kept.afterRead (h : Kept initial memory) (a : Word) :
    Kept initial (memory.afterRead a) := by
  rw [h.quiet a]
  exact h

/-- Storing a number of three digits. -/
theorem Kept.write (h : Kept initial memory) (a : Word) {v : Word} (hv : v ≤ maxValue) :
    Kept initial (memory.write a v) := by
  obtain ⟨hunmapped, hsize, hcells⟩ := h
  obtain ⟨cells, mapper⟩ := memory
  cases hunmapped
  refine ⟨rfl, (Cells.size_write cells a v).trans hsize, fun i w hw => ?_⟩
  have hput : (cells.row.setIfInBounds (a.toNat % cells.row.size) v)[i]? = some w := hw
  rw [Array.getElem?_setIfInBounds] at hput
  split at hput
  next =>
    split at hput
    next =>
      cases hput
      exact .inr hv
    next => cases hput
  next => exact hcells i w hput

end

namespace Machine

variable {μ δ : Type} {m : Machine μ δ} {initial : Memory μ Word}

/-! ## Values -/

/-- The accumulator and the in-basket hold numbers of three digits, and so do the
mailboxes that have been stored to. -/
structure Small (initial : Memory μ Word) (m : Machine μ δ) : Prop where
  acc : m.acc ≤ maxValue
  input : ∀ v ∈ m.input, v ≤ maxValue
  memory : Kept initial m.memory

/-- A new machine has zero in its accumulator. -/
theorem Small.new (hunmapped : initial.mapper = none) (initialPc : Byte) :
    (new initial initialPc : Machine μ δ).Small initial where
  acc := UInt16.zero_le
  input := nofun
  memory := ⟨hunmapped, rfl, fun _ _ h => .inl h⟩

variable [Mapper μ Word] [Observer δ Port Word]

/-- What an instruction computes has three digits. -/
theorem Small.execute (h : m.Small initial) (i : Instruction) :
    (m.execute i).state.Small initial := by
  cases i with
  | add box => exact ⟨mod_modulus_le _, h.input, h.memory.afterRead _⟩
  | sub box =>
    simp only [Machine.execute]
    exact ⟨mod_modulus_le _, h.input, h.memory.afterRead _⟩
  | lda box => exact ⟨mod_modulus_le _, h.input, h.memory.afterRead _⟩
  | sta box => exact ⟨h.acc, h.input, h.memory.write _ h.acc⟩
  | brz box =>
    simp only [Machine.execute]
    split <;> exact ⟨h.acc, h.input, h.memory⟩
  | brp box =>
    simp only [Machine.execute]
    split <;> exact ⟨h.acc, h.input, h.memory⟩
  | inp =>
    simp only [Machine.execute]
    split
    next => exact ⟨h.acc, h.input, h.memory⟩
    next => exact ⟨mod_modulus_le _, h.input, h.memory⟩
    next =>
      split
      next => exact ⟨mod_modulus_le _, fun _ hw => absurd hw (Option.not_mem_none _), h.memory⟩
      next => exact ⟨h.acc, h.input, h.memory⟩
  | _ => exact ⟨h.acc, h.input, h.memory⟩

/-- Whatever is done to the machine, its numbers keep to three digits. -/
theorem Small.perform (h : m.Small initial) (o : Signal δ) : (perform m o).Small initial := by
  cases o with
  | step =>
    show m.step.state.Small initial
    cases hi : m.executed? with
    | some i =>
      have hbehind : m.advance.Small initial := ⟨h.acc, h.input, h.memory.afterRead _⟩
      rw [step_of_executed? hi]
      exact hbehind.execute i
    | none =>
      obtain ⟨memory, hlooked, hstep⟩ := step_of_executed?_none hi
      rw [hstep, h.memory.quiet.looked hlooked]
      exact h
  | reset => exact ⟨UInt16.zero_le, fun _ hw => absurd hw (Option.not_mem_none _), h.memory⟩
  | give v => exact ⟨h.acc, fun w hw => Option.mem_some.mp hw ▸ mod_modulus_le v, h.memory⟩
  | setAcc v => exact ⟨mod_modulus_le v, h.input, h.memory⟩
  | _ => exact ⟨h.acc, h.input, h.memory⟩

/-! ## Sums and differences -/

/-- The sum or the difference that the next step forms fits into a word, and what
it leaves is right modulo 1000. -/
structure Exact (m : Machine μ δ) : Prop where
  sum_fits : ∀ box, m.executed? = some (.add box) → m.acc.toNat + (m.box box).1.toNat < 65536
  sum : ∀ box, m.executed? = some (.add box) →
    m.step.state.acc.toNat = (m.acc.toNat + (m.memory.value box.toUInt16).toNat) % 1000
  /-- The modulus is added first, so that nothing goes below zero. -/
  difference_fits : ∀ box, m.executed? = some (.sub box) →
    m.acc.toNat + modulus.toNat < 65536 ∧ (m.box box).1.toNat ≤ m.acc.toNat + modulus.toNat
  difference : ∀ box, m.executed? = some (.sub box) →
    (m.step.state.acc.toNat : Int) =
      ((m.acc.toNat : Int) - (m.memory.value box.toUInt16).toNat) % 1000

/-- So its sums and differences are exact. -/
theorem Small.exact (h : m.Small initial) : m.Exact := by
  have hacc : m.acc.toNat ≤ 999 := UInt16.le_iff_toNat_le.mp h.acc
  have hmodulus : modulus.toNat = 1000 := rfl
  have hbox (box : Byte) : (m.box box).1.toNat = (m.memory.value box.toUInt16).toNat % 1000 :=
    toNat_mod_modulus _
  have hlt (box : Byte) : (m.box box).1.toNat < 1000 := by
    rw [hbox]
    exact Nat.mod_lt _ (by decide)
  refine ⟨fun box _ => ?_, fun box hadd => ?_, fun box _ => ?_, fun box hsub => ?_⟩
  · have hsmall := hlt box
    omega
  · have hleft : m.step.state.acc = (m.acc + (m.box box).1) % modulus := by
      rw [step_of_executed? hadd, advance_of_quiet h.memory.quiet]
      rfl
    have hfits : (m.acc + (m.box box).1).toNat = m.acc.toNat + (m.box box).1.toNat := by
      have hsmall := hlt box
      rw [UInt16.toNat_add]
      exact Nat.mod_eq_of_lt (by omega)
    rw [hleft, toNat_mod_modulus, hfits, hbox, Nat.add_mod_mod]
  · have hsmall := hlt box
    omega
  · have hleft : m.step.state.acc = (m.acc + modulus - (m.box box).1) % modulus := by
      rw [step_of_executed? hsub, advance_of_quiet h.memory.quiet]
      rfl
    have hsmall := hlt box
    have hfits : (m.acc + modulus).toNat = m.acc.toNat + 1000 := by
      rw [UInt16.toNat_add, hmodulus, Nat.mod_eq_of_lt (by omega)]
    have hle : (m.box box).1 ≤ m.acc + modulus := by
      rw [UInt16.le_iff_toNat_le, hfits]
      omega
    rw [hleft, toNat_mod_modulus, UInt16.toNat_sub_of_le _ _ hle, hfits, hbox]
    omega

/-! ## The program counter -/

/-- An instruction at one of the mailboxes leaves the program counter at one, or
behind the last. -/
theorem pc_step_le (hpc : m.pc.toNat < mailboxes) : m.step.state.pc.toNat ≤ mailboxes := by
  have hnext : (m.pc + 1).toNat = m.pc.toNat + 1 := by
    rw [UInt8.toNat_add]
    exact Nat.mod_eq_of_lt (Nat.lt_of_lt_of_le (Nat.succ_lt_succ hpc) (by decide))
  have hbehind : (m.pc + 1).toNat ≤ mailboxes := hnext ▸ hpc
  cases hi : m.executed? with
  | none =>
    obtain ⟨_, _, hstep⟩ := step_of_executed?_none hi
    rw [hstep]
    exact Nat.le_of_lt hpc
  | some i =>
    have htarget {box : Byte} (hbox : i.target? = some box) : box.toNat ≤ mailboxes := by
      obtain ⟨-, d, hd, rfl⟩ := fetched_of_executed? hi
      unfold fetched decode at hd
      split at hd
      next hword =>
        cases hd
        exact Nat.le_of_lt (Instruction.target_lt hword hbox)
      next => cases hd
    rw [step_of_executed? hi]
    cases i with
    | bra box => exact htarget rfl
    | brz box =>
      simp only [Machine.execute]
      split
      next => exact htarget rfl
      next => exact hbehind
    | brp box =>
      simp only [Machine.execute]
      split
      next => exact hbehind
      next => exact htarget rfl
    | inp =>
      simp only [Machine.execute]
      split
      next => exact hbehind
      next => exact hbehind
      next =>
        split
        next => exact hbehind
        next =>
          -- the input is waited for where it stands
          show (m.pc + 1 - 1).toNat ≤ mailboxes
          rw [UInt8.add_sub_cancel]
          exact Nat.le_of_lt hpc
    | _ => exact hbehind

/-! ## The sign -/

/-- The number that an input is answered with: an observer's, or that in the
in-basket. -/
def answer? (m : Machine μ δ) : Option Word :=
  match (Observer.notifyIn m.observers Port.inp).2 with
  | .ok supplied? => supplied?.or m.input
  | .error _ => none

/-- What the next step does, if the sign depends on it. An input without a number
does not count. -/
def counted? (m : Machine μ δ) : Option Counted :=
  match m.executed? with
  | some (.add _) => some .added
  | some (.sub box) =>
    some (.subtracted (m.acc.toNat < (m.memory.value box.toUInt16).toNat % 1000))
  | some (.lda _) => some .loaded
  | some .inp => m.answer?.map fun _ => .given
  | _ => none

/-- What counts after an operation: everything since the last reset. -/
def countedAfter (past : List Counted) (m : Machine μ δ) : Signal δ → List Counted
  | .step => past ++ m.counted?.toList
  | .reset => []
  | _ => past

/-- What counts after a run. -/
def counted (past : List Counted) (m : Machine μ δ) : List (Signal δ) → List Counted
  | [] => past
  | o :: os => counted (countedAfter past m o) (perform m o) os

/-- The flag is that of the last instruction that counts. -/
def SignOf (past : List Counted) (m : Machine μ δ) : Prop :=
  m.negative = true ↔ past.getLast? = some (.subtracted true)

/-- A step that counts decides the flag, and any other leaves it. -/
theorem negative_step (hquiet : m.memory.Quiet) :
    m.step.state.negative = m.counted?.elim m.negative Counted.isNegative := by
  unfold counted?
  cases hi : m.executed? with
  | none =>
    obtain ⟨_, _, hstep⟩ := step_of_executed?_none hi
    rw [hstep, Option.elim_none]
  | some i =>
    rw [step_of_executed? hi, advance_of_quiet hquiet]
    cases i with
    | sub box =>
      have hbox : (m.box box).1.toNat = (m.memory.value box.toUInt16).toNat % 1000 :=
        toNat_mod_modulus _
      show decide (m.acc < (m.box box).1) = decide (m.acc.toNat < _)
      rw [← hbox]
      exact decide_eq_decide.mpr UInt16.lt_iff_toNat_lt
    | brz box =>
      simp only [Machine.execute]
      split <;> rfl
    | brp box =>
      simp only [Machine.execute]
      split <;> rfl
    | inp =>
      simp only [Machine.execute, answer?]
      split
      next heq => rw [heq]; rfl
      next heq => rw [heq]; rfl
      next heq =>
        rw [heq]
        split
        next hinput => rw [show m.input = _ from hinput]; rfl
        next hinput => rw [show m.input = _ from hinput]; rfl
    | _ => rfl

/-- A count is added to the history where an instruction counts. -/
theorem SignOf.perform {past : List Counted} (h : SignOf past m) (hquiet : m.memory.Quiet)
    (o : Signal δ) : SignOf (countedAfter past m o) (perform m o) := by
  cases o with
  | step =>
    show m.step.state.negative = true ↔ (past ++ m.counted?.toList).getLast? = _
    rw [negative_step hquiet]
    cases m.counted? with
    | none =>
      rw [Option.toList_none, List.append_nil]
      exact h
    | some c =>
      rw [Option.toList_some, List.getLast?_concat, Option.elim_some, Option.some.injEq]
      exact c.isNegative_iff
  | reset => exact iff_of_false Bool.false_ne_true nofun
  | _ => exact h

/-- So the sign is that of the latest count in any run. -/
theorem SignOf.after {past : List Counted} (h : SignOf past m) (hsmall : m.Small initial)
    (run : List (Signal δ)) : SignOf (counted past m run) (after m run) := by
  induction run generalizing m past with
  | nil => exact h
  | cons o os ih => exact ih (h.perform hsmall.memory.quiet o) (hsmall.perform o)

/-! ## Runs -/

theorem initialPc_step (m : Machine μ δ) : m.step.state.initialPc = m.initialPc := by
  cases hi : m.executed? with
  | none =>
    obtain ⟨_, _, hstep⟩ := step_of_executed?_none hi
    rw [hstep]
  | some i =>
    rw [step_of_executed? hi]
    cases i with
    | sub box =>
      simp only [Machine.execute]
      rfl
    | brz box =>
      simp only [Machine.execute]
      split <;> rfl
    | brp box =>
      simp only [Machine.execute]
      split <;> rfl
    | inp =>
      simp only [Machine.execute]
      split
      next => rfl
      next => rfl
      next => split <;> rfl
    | _ => rfl

/-- The program counter is at a mailbox or behind the last, and a reset takes it
to a mailbox. -/
structure Placed (m : Machine μ δ) : Prop where
  pc : m.pc.toNat ≤ mailboxes
  initialPc : m.initialPc.toNat < mailboxes

omit [Mapper μ Word] [Observer δ Port Word] in
/-- A machine that can run is at one of its boxes. -/
theorem pc_lt_of_canRun (h : m.canRun = true) : m.pc.toNat < mailboxes := by
  unfold canRun at h
  rw [Bool.and_eq_true] at h
  exact of_decide_eq_true h.2

/-- A machine at one of its boxes stays there, as long as it steps only while it can. -/
theorem Placed.perform (h : m.Placed) {o : Signal δ} (hable : o.isStep → m.canRun) :
    (perform m o).Placed := by
  cases o with
  | step =>
    refine ⟨pc_step_le (pc_lt_of_canRun (hable rfl)), ?_⟩
    show m.step.state.initialPc.toNat < mailboxes
    rw [initialPc_step]
    exact h.initialPc
  | reset => exact ⟨Nat.le_of_lt h.initialPc, h.initialPc⟩
  | _ => exact ⟨h.pc, h.initialPc⟩

/-- **Numbers keep to three digits** in an unmapped memory, whatever it holds and
whatever observers answer, as long as steps are made only where the machine can
run: so do the accumulator, the in-basket and all mailboxes but those that
nothing has been stored to; the program counter goes no further than behind the
last mailbox; sums and differences fit and are right; and the sign is that of the
last instruction that counts. -/
theorem three_digits (memory : Memory μ Word) (hunmapped : memory.mapper = none)
    (initialPc : Byte) (hpc : initialPc.toNat < mailboxes) (run : List (Signal δ))
    (hable : Each (fun (m : Machine μ δ) o => o.isStep → m.canRun) (new memory initialPc) run) :
    let m : Machine μ δ := after (new memory initialPc) run
    m.Small memory ∧ m.pc.toNat ≤ mailboxes ∧ m.Exact ∧
      (m.negative = true ↔
        (counted [] (new memory initialPc) run).getLast? = some (.subtracted true)) := by
  intro m
  have hsmall : m.Small memory :=
    after_keeps (I := Small memory) (fun _ o hm _ => hm.perform o) run _
      (.new hunmapped initialPc) hable
  have hplaced : m.Placed :=
    after_keeps (I := Placed) (fun _ _ hm ho => hm.perform ho) run _
      ⟨Nat.le_of_lt hpc, hpc⟩ hable
  have hsign : SignOf [] (new memory initialPc : Machine μ δ) :=
    iff_of_false Bool.false_ne_true nofun
  exact ⟨hsmall, hplaced.pc, hsmall.exact, hsign.after (.new hunmapped initialPc) run⟩

/-- The mailboxes hold numbers that are too large, an observer answers with 60005,
and the program goes below zero and stores what no instruction stands for where
it comes to next. -/
theorem three_digits_overlarge :
    let memory : Memory Empty Word :=
      .ofList ([901, 198, 299, 304] ++ List.replicate 94 65535 ++ [1999, 65535])
    let run : List (Signal (Recorder Port Word)) :=
      [.connect { answers := [(.inp, 60005)] }, .setAcc 65535, .step, .step, .step, .step,
        .give 5000, .step]
    let m : Machine Empty (Recorder Port Word) := after (new memory 0) run
    (memory.size = 100 ∧ memory.mapper = none ∧
      Each (fun (m : Machine Empty (Recorder Port Word)) o => o.isStep → m.canRun)
        (new memory 0) run ∧
      counted [] (new memory 0 : Machine Empty (Recorder Port Word)) run =
        [.given, .added, .subtracted true]) ∧
    m.Small memory ∧ m.Exact ∧ m.negative = true := by
  intro memory run m
  have hable : Each (fun (m : Machine Empty (Recorder Port Word)) o => o.isStep → m.canRun)
      (new memory 0) run := by decide +kernel
  have hcounted : counted [] (new memory 0 : Machine Empty (Recorder Port Word)) run =
      [.given, .added, .subtracted true] := by decide +kernel
  obtain ⟨hsmall, _, hexact, hsign⟩ := three_digits memory rfl 0 (by decide) run hable
  rw [hcounted] at hsign
  exact ⟨⟨by decide +kernel, rfl, hable, hcounted⟩, hsmall, hexact, hsign.mpr rfl⟩

end Machine

end Retrocore.Lmc
