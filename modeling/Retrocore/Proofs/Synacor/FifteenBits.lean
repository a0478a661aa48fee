import Retrocore.Proofs.Frames.Words
import Retrocore.Proofs.Operations

/-!
# Numbers of fifteen bits

The Synacor machine counts modulo 2¹⁵, in registers and on a stack of sixteen
bits. Its operations make narrow numbers out of narrow ones, with two
exceptions. `rmem` loads words as they stand in the memory, and the words that
name registers are not narrow; `call` saves the address behind it, which may lie
behind the usual memory. `narrow_throughout_iff` says that there are no others.
`loaded_name_overflows` is a sum that does not fit into sixteen bits any more.
-/

namespace Retrocore

/-! ## Words in the memory -/

namespace Memory

/-- No cell holds more than the bound. -/
def AtMost (m : Memory ReadOnlyRange Word) (bound : Word) : Prop :=
  ∀ w ∈ m.cells.row, w ≤ bound

variable {m : Memory ReadOnlyRange Word} {bound : Word}

/-- What is read is one of the cells. -/
theorem AtMost.value (h : m.AtMost bound) (a : Word) : m.value a ≤ bound := by
  have hcell : m.value a = m.cells.read a := by
    obtain ⟨cells, mapper⟩ := m
    cases mapper <;> rfl
  rw [hcell]
  unfold Cells.read Array.getD
  split
  next => exact h _ (Array.getElem_mem _)
  next => exact UInt16.zero_le

/-- A write changes no cell but one. -/
theorem AtMost.write (h : m.AtMost bound) (a : Word) {v : Word} (hv : v ≤ bound) :
    (m.write a v).AtMost bound := by
  have hput : (m.write a v).cells = m.cells ∨ (m.write a v).cells = m.cells.write a v := by
    obtain ⟨cells, mapper⟩ := m
    cases mapper with
    | none => exact .inr rfl
    | some rom =>
      cases hcovers : rom.covers a with
      | true => exact .inl (by simp only [Memory.write, Mapper.write, hcovers, if_true])
      | false =>
        exact .inr (by simp only [Memory.write, Mapper.write, hcovers, Bool.false_eq_true, if_false])
  intro w hw
  obtain hkept | hwritten := hput
  · rw [hkept] at hw
    exact h w hw
  · rw [hwritten] at hw
    obtain hold | rfl := Array.mem_or_eq_of_mem_setIfInBounds hw
    · exact h w hold
    · exact hv

end Memory

namespace Synacor

open Operable

/-- The word is read as a register. -/
def namesRegister (w : Word) : Bool :=
  match Arg.ofWord? w with
  | some (.reg _) => true
  | _ => false

/-- A word in a valid program is a number below the modulus or the name of a
register. -/
theorem namesRegister_iff {w : Word} (hw : w ≤ 32775) :
    namesRegister w = true ↔ ¬ w < modulus := by
  have hname : w < modulus + 8 := Nat.lt_succ_of_le hw
  unfold namesRegister Arg.ofWord?
  by_cases hlit : w < modulus
  · rw [if_pos hlit]
    exact iff_of_false Bool.false_ne_true (not_not_intro hlit)
  · rw [if_neg hlit, if_pos hname]
    exact iff_of_true rfl hlit

/-- A word that stands for itself is below the modulus. -/
theorem lit_lt_of_ofWord? {w v : Word} (h : Arg.ofWord? w = some (.lit v)) : v < modulus := by
  unfold Arg.ofWord? at h
  split at h
  next hlit =>
    cases h
    exact hlit
  next => split at h <;> cases h

theorem bitWord_lt (b : Bool) : bitWord b < modulus := by
  cases b <;> decide

theorem toUInt16_lt (c : Byte) : c.toUInt16 < modulus := by
  rw [UInt16.lt_iff_toNat_lt, UInt8.toNat_toUInt16]
  exact Nat.lt_trans c.toNat_lt (by decide)

/-- A remainder is no larger than what is divided. -/
theorem mod_lt_modulus {a : Word} (h : a < modulus) (b : Word) : a % b < modulus := by
  rw [UInt16.lt_iff_toNat_lt, UInt16.toNat_mod]
  exact Nat.lt_of_le_of_lt (Nat.mod_le _ _) (UInt16.lt_iff_toNat_lt.mp h)

theorem and_lt_modulus {a : Word} (h : a < modulus) (b : Word) : a &&& b < modulus := by
  rw [UInt16.lt_iff_toNat_lt, UInt16.toNat_and]
  exact Nat.lt_of_le_of_lt Nat.and_le_left (UInt16.lt_iff_toNat_lt.mp h)

theorem or_lt_modulus {a b : Word} (ha : a < modulus) (hb : b < modulus) : a ||| b < modulus := by
  rw [UInt16.lt_iff_toNat_lt] at ha hb ⊢
  rw [UInt16.toNat_or]
  exact Nat.or_lt_two_pow (n := 15) ha hb

namespace Machine

/-! ## One step -/

section

variable {μ δ : Type} {m : Machine μ δ}

/-- Registers and stack hold numbers of fifteen bits. -/
structure Narrow (m : Machine μ δ) : Prop where
  regs : ∀ r, m.regs.get r < modulus
  stack : ∀ v ∈ m.stack, v < modulus

/-- All registers are zero and the stack is empty at first. -/
theorem narrow_new (memory : Memory μ Word) (initialPc : Word) :
    (new memory initialPc : Machine μ δ).Narrow where
  regs r := by
    show (Vector.replicate 8 (0 : Word))[r.val] < modulus
    rw [Vector.getElem_replicate]
    decide
  stack := List.forall_mem_nil _

/-- A number below the modulus may be stored. -/
theorem Narrow.setReg (h : m.Narrow) (r : Fin 8) {v : Word} (hv : v < modulus) :
    (m.setReg r v).Narrow where
  regs q := by
    show (m.regs.set r.val v r.isLt)[q.val] < modulus
    rw [Vector.getElem_set]
    split
    next => exact hv
    next => exact h.regs q
  stack := h.stack

theorem Narrow.setReg_iff (h : m.Narrow) (r : Fin 8) {v : Word} :
    (m.setReg r v).Narrow ↔ v < modulus := by
  refine ⟨fun hset => ?_, h.setReg r⟩
  have hread : (m.setReg r v).regs.get r = v := by
    show (m.regs.set r.val v r.isLt)[r.val] = v
    exact Vector.getElem_set_self _
  rw [← hread]
  exact hset.regs r

/-- The same for a result, which may also have nowhere to go. -/
theorem Narrow.assign (h : m.Narrow) (op : Op) (dst : Arg) {v : Word} (hv : v < modulus) :
    (m.assign op dst v).state.Narrow := by
  unfold Machine.assign
  split
  next r _ => exact h.setReg r hv
  next => exact h

/-- An argument stands for itself or for what is in a register. -/
theorem Narrow.value (h : m.Narrow) {a : Arg} (hlit : ∀ v, a = .lit v → v < modulus) :
    m.value a < modulus := by
  cases a with
  | lit v => exact hlit v rfl
  | reg r => exact h.regs r

/-- The arguments of what the next step runs are narrow too. -/
theorem Narrow.value_arg [Mapper μ Word] (h : m.Narrow) {i : Instruction}
    (hi : m.executed? = some i) : ∀ a ∈ i.args, m.value a < modulus := by
  obtain ⟨-, d, hd, rfl⟩ := fetched_of_executed? hi
  intro a ha
  obtain ⟨j, hj⟩ := List.mem_iff_getElem?.mp ha
  have hword := (readFrom_of_decode hd).args j a hj
  exact h.value fun v hv => lit_lt_of_ofWord? (hv ▸ hword)

/-- A number below the modulus may be pushed. -/
theorem Narrow.push (h : m.Narrow) {v : Word} (hv : v < modulus) :
    ({ m with stack := v :: m.stack } : Machine μ δ).Narrow where
  regs := h.regs
  stack := List.forall_mem_cons.mpr ⟨hv, h.stack⟩

/-- What the stack was before a number was taken off. -/
theorem Narrow.top (h : m.Narrow) {v : Word} {stack : List Word} (hstack : m.stack = v :: stack) :
    v < modulus ∧ ({ m with stack } : Machine μ δ).Narrow := by
  have hall := h.stack
  rw [hstack] at hall
  obtain ⟨hv, hrest⟩ := List.forall_mem_cons.mp hall
  exact ⟨hv, h.regs, hrest⟩

/-- What is read is a byte. -/
theorem Narrow.readChar [Observer δ Byte Byte] (h : m.Narrow) (i : Instruction) (dst : Arg) :
    (m.readChar i dst).state.Narrow := by
  unfold Machine.readChar
  split
  next => exact ⟨h.regs, h.stack⟩
  next observers c _ =>
    have hheard : ({ m with observers } : Machine μ δ).Narrow := ⟨h.regs, h.stack⟩
    exact hheard.assign _ dst (toUInt16_lt c)
  next observers _ =>
    split
    next c input _ =>
      have hread : ({ m with observers, input } : Machine μ δ).Narrow := ⟨h.regs, h.stack⟩
      exact hread.assign _ dst (toUInt16_lt c)
    next => exact ⟨h.regs, h.stack⟩

/-- The numbers that an instruction stores are narrow, but for what `rmem` and
`call` may store. -/
theorem Narrow.execute [Mapper μ Word] [Observer δ Byte Byte] (h : m.Narrow) (i : Instruction)
    (hargs : ∀ a ∈ i.args, m.value a < modulus)
    (hload : ∀ r address, i = .rmem (.reg r) address → m.memory.value (m.value address) < modulus)
    (hcall : ∀ target, i = .call target → m.pc < modulus) : (m.execute i).state.Narrow := by
  -- Sums, products and complements are cut down to fifteen bits; the others are
  -- put together from the bits of narrow numbers, or moved.
  cases i with
  | set dst a => exact h.assign _ dst (hargs a (by simp [Instruction.args]))
  | push a => exact h.push (hargs a (by simp [Instruction.args]))
  | pop dst =>
    simp only [Machine.execute]
    split
    next hstack =>
      obtain ⟨hv, hrest⟩ := h.top hstack
      exact hrest.assign _ dst hv
    next => exact h
  | eq dst a b => exact h.assign _ dst (bitWord_lt _)
  | gt dst a b => exact h.assign _ dst (bitWord_lt _)
  | add dst a b => exact h.assign _ dst (UInt16.mod_lt _ (by decide))
  | mult dst a b => exact h.assign _ dst (UInt16.mod_lt _ (by decide))
  | mod dst a b =>
    simp only [Machine.execute]
    split
    next => exact h
    next => exact h.assign _ dst (mod_lt_modulus (hargs a (by simp [Instruction.args])) _)
  | and dst a b => exact h.assign _ dst (and_lt_modulus (hargs a (by simp [Instruction.args])) _)
  | or dst a b =>
    exact h.assign _ dst
      (or_lt_modulus (hargs a (by simp [Instruction.args])) (hargs b (by simp [Instruction.args])))
  | not dst a =>
    have hmask : ~~~m.value a &&& (modulus - 1) < modulus := by
      rw [UInt16.and_comm]
      exact and_lt_modulus (by decide) _
    exact h.assign _ dst hmask
  | rmem dst address =>
    cases dst with
    | reg r =>
      have hread : ({ m with memory := m.memory.afterRead (m.value address) } :
          Machine μ δ).Narrow := ⟨h.regs, h.stack⟩
      exact hread.assign .rmem (.reg r) (hload r address rfl)
    | lit v => exact ⟨h.regs, h.stack⟩
  | call target => exact ⟨h.regs, (h.push (hcall target rfl)).stack⟩
  | ret =>
    simp only [Machine.execute]
    split
    next hstack => exact ⟨h.regs, (h.top hstack).2.stack⟩
    next => exact ⟨h.regs, h.stack⟩
  | jt a target =>
    simp only [Machine.execute]
    split <;> exact ⟨h.regs, h.stack⟩
  | jf a target =>
    simp only [Machine.execute]
    split <;> exact ⟨h.regs, h.stack⟩
  | inp dst => exact h.readChar _ dst
  | _ => exact ⟨h.regs, h.stack⟩

end

/-! ## Runs -/

variable {δ : Type} [Observer δ Byte Byte] {m : Machine ReadOnlyRange δ}

/-- The next step stores a word that is not a number: a register's name that
`rmem` finds in the memory, or an address that `call` goes back to. -/
def widens (m : Machine ReadOnlyRange δ) : Bool :=
  match m.executed? with
  | some (.rmem (.reg _) address) => namesRegister (m.memory.value (m.value address))
  | some (.call _) => modulus ≤ m.pc + 2
  | _ => false

/-- The sum that the next step forms, if it forms one, fits into a word. -/
def SumFits (m : Machine ReadOnlyRange δ) : Prop :=
  ∀ dst a b, m.executed? = some (.add dst a b) → (m.value a).toNat + (m.value b).toNat ≤ 65535

/-- A step keeps numbers narrow just if it does not load a register's name or
save an address behind the usual memory. -/
theorem narrow_step_iff (h : m.Narrow) (hmemory : m.memory.AtMost 32775) :
    m.step.state.Narrow ↔ m.widens = false := by
  cases hi : m.executed? with
  | none =>
    obtain ⟨_, _, hstep⟩ := step_of_executed?_none hi
    rw [hstep]
    exact iff_of_true ⟨h.regs, h.stack⟩ (by unfold widens; rw [hi])
  | some i =>
    have hbehind : (m.jump (m.pc + UInt16.ofNat i.length)).Narrow := ⟨h.regs, h.stack⟩
    have hargs := h.value_arg hi
    rw [step_of_executed? hi, advance_of_quiet (Memory.quiet_of_readOnly _)]
    unfold widens
    rw [hi]
    cases i with
    | rmem dst address =>
      cases dst with
      | lit v => exact iff_of_true ⟨h.regs, h.stack⟩ rfl
      | reg r =>
        dsimp only
        rw [← Bool.not_eq_true, namesRegister_iff (hmemory.value _), Decidable.not_not]
        have hread : ({ m.jump (m.pc + 3) with
            memory := m.memory.afterRead (m.value address) } : Machine ReadOnlyRange δ).Narrow :=
          ⟨h.regs, h.stack⟩
        exact hread.setReg_iff r
    | call target =>
      dsimp only
      rw [decide_eq_false_iff_not, UInt16.not_le]
      exact ⟨fun hstep => (List.forall_mem_cons.mp hstep.stack).1,
        fun hpc => hbehind.execute _ hargs (fun _ _ hrmem => nomatch hrmem) fun _ _ => hpc⟩
    | _ =>
      -- neither of the two
      refine iff_of_true (hbehind.execute _ hargs (fun _ _ hrmem => ?_) fun _ hcall => ?_) rfl
      · cases hrmem
      · cases hcall

/-- Narrow numbers are all that is written to the memory. -/
theorem atMost_step (h : m.Narrow) (hmemory : m.memory.AtMost 32775) :
    m.step.state.memory.AtMost 32775 := by
  cases hi : m.executed? with
  | none =>
    obtain ⟨memory, hlooked, hstep⟩ := step_of_executed?_none hi
    rw [hstep, (Memory.quiet_of_readOnly _).looked hlooked]
    exact hmemory
  | some i =>
    have hargs := h.value_arg hi
    rw [step_of_executed? hi, advance_of_quiet (Memory.quiet_of_readOnly _), memory_execute]
    cases i with
    | rmem dst address =>
      show (m.memory.afterRead _).AtMost 32775
      rw [Memory.quiet_of_readOnly m.memory]
      exact hmemory
    | wmem address a =>
      have ha : m.value a < modulus := hargs a (by simp [Instruction.args])
      exact hmemory.write _ (UInt16.le_of_lt (UInt16.lt_trans ha (by decide)))
    | _ => exact hmemory

/-- One call keeps the machine narrow unless it is a step that widens it. -/
theorem narrow_perform_iff (h : m.Narrow) (hmemory : m.memory.AtMost 32775) (o : Signal δ) :
    (perform m o).Narrow ↔ (o.isStep → m.widens = false) := by
  cases o with
  | step =>
    constructor
    · intro hstep _
      exact (narrow_step_iff h hmemory).mp hstep
    · intro hwidens
      exact (narrow_step_iff h hmemory).mpr (hwidens rfl)
  | reset =>
    have hnew := narrow_new (δ := δ) m.memory m.initialPc
    exact iff_of_true ⟨hnew.regs, hnew.stack⟩ nofun
  | _ => exact iff_of_true ⟨h.regs, h.stack⟩ nofun

/-- No call stores to memory what a program may not have in it. -/
theorem atMost_perform (h : m.Narrow) (hmemory : m.memory.AtMost 32775) (o : Signal δ) :
    (perform m o).memory.AtMost 32775 := by
  cases o with
  | step => exact atMost_step h hmemory
  | _ => exact hmemory

omit [Observer δ Byte Byte] in
/-- Two numbers below the modulus add up to a word. -/
theorem Narrow.sumFits (h : m.Narrow) : m.SumFits := by
  intro dst a b hadd
  have hargs := h.value_arg hadd
  have ha := UInt16.lt_iff_toNat_lt.mp (hargs a (by simp [Instruction.args]))
  have hb := UInt16.lt_iff_toNat_lt.mp (hargs b (by simp [Instruction.args]))
  have hmodulus : modulus.toNat = 32768 := rfl
  omega

/-- **Numbers stay narrow** on a machine whose memory, with or without ROM, holds
nothing but numbers and names of registers, just as long as no `rmem` loads such
a name and no `call` goes back behind the usual memory; and then sums fit into a
word. -/
theorem narrow_throughout_iff (memory : Memory ReadOnlyRange Word)
    (hvalid : ∀ w ∈ memory.cells.row, w ≤ 32775) (initialPc : Word) (run : List (Signal δ)) :
    (Throughout Narrow (new memory initialPc : Machine ReadOnlyRange δ) run ↔
      Each (fun (m : Machine ReadOnlyRange δ) o => o.isStep → m.widens = false)
        (new memory initialPc) run) ∧
    (Throughout Narrow (new memory initialPc : Machine ReadOnlyRange δ) run →
      Throughout SumFits (new memory initialPc : Machine ReadOnlyRange δ) run) := by
  constructor
  · refine throughout_iff_each
      (I := fun m : Machine ReadOnlyRange δ => m.memory.AtMost 32775)
      (fun m o hmemory h => narrow_perform_iff h hmemory o)
      (fun m o hmemory h => atMost_perform h hmemory o) run _ hvalid ?_
    exact narrow_new memory initialPc
  · exact Throughout.mono fun m h => h.sumFits

/-- Doubling the largest number, and loading a number, keeps to fifteen bits. -/
theorem narrow_throughout_iff_doubling :
    let memory : Memory ReadOnlyRange Word := .ofList
      [1, 32768, 32767, 9, 32769, 32768, 32768, 15, 32770, 2, 17, 0]
    let m : Machine ReadOnlyRange (Recorder Byte Byte) := new memory 0
    let run : List (Signal (Recorder Byte Byte)) := [.step, .give [104], .step, .step, .step]
    Throughout Narrow m run ∧ Throughout SumFits m run := by
  intro memory m run
  have hvalid : ∀ w ∈ memory.cells.row, w ≤ 32775 := by simp [memory, Memory.ofList]
  obtain ⟨hiff, hfits⟩ := narrow_throughout_iff memory hvalid 0 run
  have hnarrow := hiff.mpr (by decide +kernel)
  exact ⟨hnarrow, hfits hnarrow⟩

/-- Loading the name of the first register from the memory makes that register
wide, and its double does not fit into a word. -/
theorem loaded_name_overflows :
    let memory : Memory ReadOnlyRange Word := .ofList [15, 32768, 1, 9, 32769, 32768, 32768]
    let m : Machine ReadOnlyRange (Recorder Byte Byte) := (new memory 0).step.state
    (∀ w ∈ memory.cells.row, w ≤ 32775) ∧ m.regs.get 0 = 32768 ∧ ¬ m.Narrow ∧ ¬ m.SumFits := by
  intro memory m
  have hvalid : ∀ w ∈ memory.cells.row, w ≤ 32775 := by simp [memory, Memory.ofList]
  have hreg : m.regs.get 0 = 32768 := by decide +kernel
  have hadd : m.executed? = some (.add (.reg 1) (.reg 0) (.reg 0)) := by decide +kernel
  have hsum : ¬ (m.value (.reg 0)).toNat + (m.value (.reg 0)).toNat ≤ 65535 := by decide +kernel
  clear_value m
  refine ⟨hvalid, hreg, fun hnarrow => ?_, fun hfits => hsum (hfits _ _ _ hadd)⟩
  have hlt := hnarrow.regs 0
  rw [hreg] at hlt
  exact absurd hlt (by decide)

end Machine

end Synacor

end Retrocore
