import Retrocore.Fault

/-!
# Cores

What the five processors have in common: a step that costs cycles or ends in a
fault, a program counter, interrupt requests, and a view of the registers and
flags by name. The execution driver works on any of them.
-/

namespace Retrocore

/-- What a step leaves: the machine afterwards, also if the step went wrong, and
the cycles it took or the fault that stopped it. Cycles are natural numbers, and so
are their sums, which the processors count in 64 bits: a sum of cycles is taken not
to reach 2 ^ 64, here and wherever cycles are added up. -/
structure Ran (σ : Type) where
  state : σ
  result : Except Fault Nat

namespace Ran

variable {σ τ : Type}

/-- A state reached without a fault and at no cost. -/
def free (s : σ) : Ran σ := ⟨s, .ok 0⟩

def map (f : σ → τ) (r : Ran σ) : Ran τ := ⟨f r.state, r.result⟩

/-- The same step at a higher cost. -/
def plus (r : Ran σ) (cycles : Nat) : Ran σ := ⟨r.state, r.result.map (· + cycles)⟩

/-- The same step at a set cost. -/
def costing (r : Ran σ) (cycles : Nat) : Ran σ := ⟨r.state, r.result.map fun _ => cycles⟩

/-- The fault that a step ended in. -/
def fault? (r : Ran σ) : Option Fault :=
  match r.result with
  | .ok _ => none
  | .error fault => some fault

/-- What a step costs says nothing about how it ends. -/
@[simp] theorem fault?_plus (r : Ran σ) (cycles : Nat) : (r.plus cycles).fault? = r.fault? := by
  obtain ⟨s, result⟩ := r
  cases result <;> rfl

@[simp] theorem fault?_costing (r : Ran σ) (cycles : Nat) :
    (r.costing cycles).fault? = r.fault? := by
  obtain ⟨s, result⟩ := r
  cases result <;> rfl

end Ran

/-- A processor with everything attached to it. -/
class Core (κ : Type) where
  /-- Runs one instruction, or services one pending interrupt. -/
  step : κ → Ran κ
  pc : κ → Word
  /-- False once the core is stopped or has run out of memory. -/
  canRun : κ → Bool
  isHalted : κ → Bool
  interruptsEnabled : κ → Bool
  /-- Requests an interrupt. The byte is an instruction or a vector, depending
  on the core. -/
  interrupt : κ → Byte → κ
  reset : κ → κ
  start : κ → κ
  stop : κ → κ
  /-- The registers with their names. -/
  registers : κ → List (String × Word)
  /-- The flags with their names. -/
  flags : κ → List (String × Bool)

end Retrocore
