import Retrocore.Proofs.Execution.Chronicle

/-!
# Free runs

What a driver does to its core when nobody interferes: rounds of steps, each as
long as its steps have cost less than the budget, and after each round an
interrupt if one is due. A free run never stops; `FreeRun.calls k` are its first
`k` calls.
-/

namespace Retrocore.Execution

variable {κ : Type} [Core κ]

/-- The interrupt that is due at the end of a round. -/
def due (interruptByte : Option Byte) (core : κ) : Option Byte :=
  if Core.interruptsEnabled core then interruptByte else none

/-- A core in the middle of a round. -/
structure FreeRun (κ : Type) where
  core : κ
  /-- What the steps of the round have cost. -/
  spent : Nat := 0

namespace FreeRun

/-- What a step costs; one that fails costs nothing. -/
def cost (ran : Ran κ) : Nat :=
  match ran.result with
  | .ok n => n
  | .error _ => 0

/-- Another step of the round. -/
def step (r : FreeRun κ) : FreeRun κ :=
  let ran := Core.step r.core
  ⟨ran.state, r.spent + cost ran⟩

/-- The next call and the state after it: a step while there is budget left,
otherwise the interrupt that is due, and if none is, the first step of the next
round. -/
def next (config : Config) (r : FreeRun κ) : Call × FreeRun κ :=
  if r.spent < config.cyclesPerTick then (.step, r.step)
  else
    match due config.interruptByte r.core with
    | some byte => (.interrupt byte, ⟨Core.interrupt r.core byte, 0⟩)
    | none => (.step, step ⟨r.core, 0⟩)

/-- The state after a number of calls. -/
def state (config : Config) (r : FreeRun κ) : Nat → FreeRun κ
  | 0 => r
  | k + 1 => (next config (state config r k)).2

/-- The first calls. -/
def calls (config : Config) (r : FreeRun κ) : Nat → List Call
  | 0 => []
  | k + 1 => calls config r k ++ [(next config (state config r k)).1]

@[simp] theorem length_calls (config : Config) (r : FreeRun κ) (k : Nat) :
    (calls config r k).length = k := by
  induction k with
  | zero => rfl
  | succ k ih => rw [calls, List.length_append, ih]; rfl

/-- The first calls of a free run are those of any longer piece of it. -/
theorem calls_prefix (config : Config) (r : FreeRun κ) {j k : Nat} (h : j ≤ k) :
    calls config r j <+: calls config r k := by
  induction h with
  | refl => exact List.prefix_rfl
  | step _ ih => exact ih.trans (List.prefix_append _ _)

end FreeRun

end Retrocore.Execution
