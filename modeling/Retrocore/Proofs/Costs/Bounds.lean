import Mathlib.Data.List.Basic
import Retrocore.I8080.Step
import Retrocore.Lmc.Machine
import Retrocore.Synacor.Machine

/-!
# What a step costs

`Ran.CostsBetween` bounds the cost of a step that succeeds; one that fails has
none. On the 8080 the bounds are those of the single instructions, on the Little
Man Computer and the Synacor machine every step costs the same. The two
processors that look costs up in a table have modules of their own;
`forall_cost` takes them from the entries of a table to its opcodes.
-/

namespace Retrocore

/-! ## Bounds -/

/-- If the step succeeds, its cost lies between the bounds. -/
def Ran.CostsBetween {σ : Type} (low high : Nat) (r : Ran σ) : Prop :=
  ∀ n, r.result = .ok n → low ≤ n ∧ n ≤ high

namespace Ran.CostsBetween

variable {σ : Type} {low high : Nat} {r : Ran σ}

/-- A step without a fault costs what it says. -/
theorem ok {s : σ} {n : Nat} (hn : low ≤ n ∧ n ≤ high) : CostsBetween low high ⟨s, .ok n⟩ := by
  intro k hk
  cases hk
  exact hn

/-- A set cost is the lower bound and the upper. -/
theorem fixed {s : σ} {n : Nat} : CostsBetween n n ⟨s, .ok n⟩ :=
  ok ⟨Nat.le_refl n, Nat.le_refl n⟩

/-- A step that fails costs nothing that would count. -/
theorem error {s : σ} {fault : Fault} : CostsBetween low high ⟨s, .error fault⟩ := by
  intro k hk
  cases hk

/-- What an observer may refuse costs the same whenever it does not. -/
theorem map {α : Type} {s : σ} {result : Except Fault α} {n : Nat} :
    CostsBetween n n ⟨s, result.map fun _ => n⟩ := by
  cases result with
  | error fault => exact error
  | ok a => exact fixed

/-- A cost that is set anew forgets the one before. -/
theorem costing {n : Nat} : (r.costing n).CostsBetween n n := map

/-- A surcharge moves both bounds. -/
theorem plus (h : r.CostsBetween low high) (cycles : Nat) :
    (r.plus cycles).CostsBetween (low + cycles) (high + cycles) := by
  obtain ⟨s, result⟩ := r
  cases result with
  | error fault => exact error
  | ok n =>
    obtain ⟨hlow, hhigh⟩ := h n rfl
    exact ok ⟨Nat.add_le_add_right hlow cycles, Nat.add_le_add_right hhigh cycles⟩

/-- Bounds may be taken wider. -/
theorem mono (h : r.CostsBetween low high) {low' high' : Nat} (hlow : low' ≤ low)
    (hhigh : high ≤ high') : r.CostsBetween low' high' :=
  fun n hn => ⟨Nat.le_trans hlow (h n hn).1, Nat.le_trans (h n hn).2 hhigh⟩

end Ran.CostsBetween

/-- Every step of the core costs something, but not more than 24 cycles. -/
def Core.Priced (κ : Type) [Core κ] : Prop := ∀ k : κ, (Core.step k).CostsBetween 1 24

/-! ## Tables -/

/-- What holds of all entries of a full table and their opcodes holds of each
opcode. -/
theorem forall_cost {table : Array Nat} (hsize : table.size = 256) {P : Nat → Byte → Prop}
    (h : ∀ entry ∈ table.toList.zipIdx, P entry.1 (UInt8.ofNat entry.2)) (opcode : Byte) :
    P (table.getD opcode.toNat 0) opcode := by
  have hlt : opcode.toNat < table.size := hsize ▸ opcode.toNat_lt
  have hmem : (table.getD opcode.toNat 0, opcode.toNat) ∈ table.toList.zipIdx := by
    rw [List.mk_mem_zipIdx_iff_getElem?, Array.getElem?_toList]
    unfold Array.getD
    rw [dif_pos hlt]
    exact Array.getElem?_eq_getElem hlt
  have hentry := h _ hmem
  rw [UInt8.ofNat_toNat] at hentry
  exact hentry

/-! ## The 8080 -/

namespace I8080.Machine

variable {μ δ : Type}

/-- An instruction costs more with M than with a register, and stays between the two. -/
theorem costs_costOn {m : Machine μ δ} {onMemory onRegister low high : Nat} (r : Reg)
    (hmemory : low ≤ onMemory ∧ onMemory ≤ high)
    (hregister : low ≤ onRegister ∧ onRegister ≤ high) :
    Ran.CostsBetween low high ⟨m, .ok (costOn r onMemory onRegister)⟩ := by
  unfold costOn
  split
  next => exact .ok hmemory
  next => exact .ok hregister

variable [Mapper μ Byte] [Observer δ Byte Byte]

/-- On the 8080 the instructions themselves say what they cost: four cycles for most
between registers, and up to eighteen. -/
theorem costs_execute (m : Machine μ δ) (i : Instruction) :
    (m.execute i).CostsBetween 4 18 := by
  cases i with
  | inr r => exact costs_costOn r (by decide) (by decide)
  | dcr r => exact costs_costOn r (by decide) (by decide)
  | mvi r v => exact costs_costOn r (by decide) (by decide)
  | alu op r => exact costs_costOn r (by decide) (by decide)
  | mov dst src =>
    simp only [execute]
    split
    next => exact .ok (by decide)
    next => exact .ok (by decide)
  | ret when? =>
    cases when? with
    | none => exact .ok (by decide)
    | some cc =>
      simp only [execute]
      split
      next => exact .ok (by decide)
      next => exact .ok (by decide)
  | call when? address =>
    cases when? with
    | none => exact .ok (by decide)
    | some cc =>
      simp only [execute]
      split
      next => exact .ok (by decide)
      next => exact .ok (by decide)
  | jmp when? address => cases when? <;> exact .ok (by decide)
  | out port => exact Ran.CostsBetween.map.mono (by decide) (by decide)
  | inp port =>
    simp only [execute]
    split
    next => exact .ok (by decide)
    next => exact .error
  | _ => exact .ok (by decide)

/-- Serviced or fetched, it is an instruction that costs; a halted processor
idles at the cost of the cheapest. -/
theorem priced : Core.Priced (Machine μ δ) := by
  intro m
  have hexecute : ∀ (m : Machine μ δ) i, (m.execute i).CostsBetween 1 24 :=
    fun m i => (costs_execute m i).mono (by decide) (by decide)
  show m.step.CostsBetween 1 24
  unfold step
  split
  next => exact hexecute _ _
  next => exact .ok (by decide)
  next => exact hexecute _ _

end I8080.Machine

/-! ## The Little Man Computer -/

namespace Lmc.Machine

variable {μ δ : Type} [Mapper μ Word] [Observer δ Port Word]

/-- On the LMC every instruction costs one cycle. -/
theorem costs_execute (m : Machine μ δ) (i : Instruction) :
    (m.execute i).CostsBetween 1 1 := by
  cases i with
  | inp =>
    simp only [execute]
    split
    next => exact .error
    next => exact .fixed
    next =>
      split
      next => exact .fixed
      next => exact .fixed
  | out => exact .map
  | otc => exact .map
  | _ => exact .fixed

/-- So every step of the LMC that succeeds is priced. -/
theorem priced : Core.Priced (Machine μ δ) := by
  intro m
  show m.step.CostsBetween 1 24
  unfold step
  split
  next => exact .ok (by decide)
  next =>
    split
    next => exact (costs_execute _ _).mono (by decide) (by decide)
    next => exact .error

end Lmc.Machine

/-! ## The Synacor machine -/

namespace Synacor.Machine

variable {μ δ : Type}

/-- On the Synacor machine a result costs one cycle, or there is none. -/
theorem costs_assign (m : Machine μ δ) (op : Op) (dst : Arg) (v : Word) :
    (m.assign op dst v).CostsBetween 1 1 := by
  unfold assign
  split
  next => exact .fixed
  next => exact .error

variable [Observer δ Byte Byte]

/-- An input costs one, waiting or not. -/
theorem costs_readChar (m : Machine μ δ) (i : Instruction) (dst : Arg) :
    (m.readChar i dst).CostsBetween 1 1 := by
  unfold readChar
  split
  next => exact .error
  next => exact costs_assign _ _ _ _
  next =>
    split
    next => exact costs_assign _ _ _ _
    next => exact .fixed

variable [Mapper μ Word]

theorem costs_execute (m : Machine μ δ) (i : Instruction) :
    (m.execute i).CostsBetween 1 1 := by
  cases i with
  | halt => exact .fixed
  | push a => exact .fixed
  | pop dst =>
    simp only [execute]
    split
    next => exact costs_assign _ _ _ _
    next => exact .error
  | jmp target => exact .fixed
  | jt a target => exact .fixed
  | jf a target => exact .fixed
  | mod dst a b =>
    simp only [execute]
    split
    next => exact .error
    next => exact costs_assign _ _ _ _
  | wmem address a => exact .fixed
  | call target => exact .fixed
  | ret =>
    simp only [execute]
    split
    next => exact .fixed
    next => exact .fixed
  | out a => exact .map
  | inp dst => exact costs_readChar _ _ _
  | noop => exact .fixed
  | _ => exact costs_assign _ _ _ _

/-- So every step of the Synacor machine that succeeds is priced. -/
theorem priced : Core.Priced (Machine μ δ) := by
  intro m
  show m.step.CostsBetween 1 24
  unfold step
  split
  next => exact .ok (by decide)
  next =>
    split
    next => exact (costs_execute _ _).mono (by decide) (by decide)
    next => exact .error

end Synacor.Machine

end Retrocore
