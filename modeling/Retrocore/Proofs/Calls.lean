import Retrocore.Core

/-!
# Runs of a core

Whoever drives a core makes two kinds of calls on it: it lets the core take a
step, and it requests interrupts. A run is a list of such calls, made one after
the other whatever the outcome of each: a step that fails leaves a state behind,
and the next call finds it.

`Core.after` is the state that a run ends in, `Core.faults` what went wrong on
the way, call by call, and `Core.StepsWithin` says that every step of the run
was taken from a state with some property. `Core.after_keeps` is the induction
that theorems about runs of any length go through.

`Core.steps` is for a core that is left to itself: steps and nothing else, with
what they cost together, up to the first that fails. Loops of a program are
followed with `Core.steps_rounds`.
-/

namespace Retrocore

/-- What is asked of a core. -/
inductive Call where
  | step
  | interrupt (byte : Byte)
  deriving DecidableEq, Repr

namespace Core

variable {κ : Type} [Core κ]

/-- The core after one call. -/
def call (k : κ) : Call → κ
  | .step => (step k).state
  | .interrupt byte => interrupt k byte

/-- The core after a run. -/
def after (k : κ) (calls : List Call) : κ := calls.foldl call k

/-- The fault that a call ends in. Requests never fail. -/
def callFault? (k : κ) : Call → Option Fault
  | .step => (step k).fault?
  | .interrupt _ => none

/-- The faults of a run, one entry for each call. -/
def faults (k : κ) : List Call → List (Option Fault)
  | [] => []
  | c :: cs => callFault? k c :: faults (call k c) cs

/-- Every step of the run is taken from a state in which `P` holds. -/
def StepsWithin (P : κ → Prop) (k : κ) : List Call → Prop
  | [] => True
  | c :: cs => (c = .step → P k) ∧ StepsWithin P (call k c) cs

instance decidableStepsWithin {P : κ → Prop} [DecidablePred P] :
    (k : κ) → (calls : List Call) → Decidable (StepsWithin P k calls)
  | _, [] => inferInstanceAs (Decidable True)
  | k, c :: cs =>
    have := decidableStepsWithin (P := P) (call k c) cs
    inferInstanceAs (Decidable ((c = .step → P k) ∧ StepsWithin P (call k c) cs))

@[simp] theorem after_cons (k : κ) (c : Call) (cs : List Call) :
    after k (c :: cs) = after (call k c) cs := rfl

/-- One run after the other is the run of both. -/
@[simp] theorem after_append (k : κ) (cs ds : List Call) :
    after k (cs ++ ds) = after (after k cs) ds := by
  unfold after
  rw [List.foldl_append]

/-- What every call keeps, a run keeps: steps from states with `Q`, and requests
at any time. -/
theorem after_keeps {P Q : κ → Prop} (hstep : ∀ k, P k → Q k → P (step k).state)
    (hrequest : ∀ k byte, P k → P (interrupt k byte)) :
    ∀ (calls : List Call) (k : κ), P k → StepsWithin Q k calls →
      P (after k calls) := by
  intro calls
  induction calls with
  | nil =>
    intro k hk _
    exact hk
  | cons c cs ih =>
    intro k hk hwithin
    obtain ⟨hq, hrest⟩ := hwithin
    rw [after_cons]
    refine ih (call k c) ?_ hrest
    cases c with
    | step => exact hstep k hk (hq rfl)
    | interrupt byte => exact hrequest k byte hk

/-! ## Steps and nothing else -/

/-- So many steps in a row, and their cost together. The first one that fails is
the last. -/
def steps (k : κ) : Nat → Ran κ
  | 0 => .free k
  | n + 1 =>
    let r := steps k n
    match r.result with
    | .ok cost => (step r.state).plus cost
    | .error _ => r

/-- The last step of so many is made where the others end. -/
theorem steps_succ {k : κ} {n cost : Nat} (h : (steps k n).result = .ok cost) :
    steps k (n + 1) = (step (steps k n).state).plus cost := by
  simp only [steps, h]

/-- Rounds of a loop that take a step each and cost the same: what holds before
the first of them, and from each of them to the next, holds after all. -/
theorem steps_rounds {I : Nat → κ → Prop} {n cost : Nat}
    (hround : ∀ i k, i < n → I i k →
      (step k).result = .ok cost ∧ I (i + 1) (step k).state)
    {k : κ} (hstart : I 0 k) :
    ∀ i, i ≤ n → (steps k i).result = .ok (cost * i) ∧ I i (steps k i).state := by
  intro i
  induction i with
  | zero =>
    intro _
    exact ⟨rfl, hstart⟩
  | succ i ih =>
    intro hi
    obtain ⟨hcost, hinv⟩ := ih (Nat.le_of_succ_le hi)
    obtain ⟨hresult, hnext⟩ := hround i _ hi hinv
    rw [steps_succ hcost]
    refine ⟨?_, hnext⟩
    show (step (steps k i).state).result.map (· + cost * i) = .ok (cost * (i + 1))
    rw [hresult, Nat.mul_succ, Nat.add_comm]
    rfl

/-- The same where it is known which state each round leaves. -/
theorem steps_course {s : Nat → κ} {n cost : Nat}
    (hround : ∀ i < n, step (s i) = ⟨s (i + 1), .ok cost⟩) :
    ∀ i ≤ n, steps (s 0) i = ⟨s i, .ok (cost * i)⟩ := by
  have hrounds : ∀ i k, i < n → k = s i →
      (step k).result = .ok cost ∧ (step k).state = s (i + 1) := by
    rintro i k hi rfl
    rw [hround i hi]
    exact ⟨rfl, rfl⟩
  intro i hi
  obtain ⟨hcost, hstate⟩ := steps_rounds hrounds rfl i hi
  rw [← hcost, ← hstate]

end Core

end Retrocore
