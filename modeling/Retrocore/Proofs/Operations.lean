import Retrocore.Lmc.Machine
import Retrocore.Proofs.Calls
import Retrocore.Synacor.Machine
import Retrocore.Z80.Step

/-!
# Runs of operations

`Proofs/Calls` speaks of the two calls that every core understands. Here a run
is made of whatever operations something has: `Operable.after` is the state that
a run ends in, `Operable.Each` says of every operation of a run on what it is
performed, and `Operable.Throughout` says of every state of a run what holds in
it. `Operable.after_keeps` is the induction over runs.

The Z80 has a third call, the request of a non-maskable interrupt; its runs are
made of `Z80.Signal`s. Those of the word machines are made of `Lmc.Signal`s and
`Synacor.Signal`s: everything there is but for storing to their memory and, on
the Synacor machine, to its registers from outside.
-/

namespace Retrocore

/-- Something of type `σ` on which operations of type `ο` are performed. -/
class Operable (σ ο : Type) where
  perform : σ → ο → σ

namespace Operable

variable {σ ο : Type} [Operable σ ο]

/-- The state after a run. -/
def after (s : σ) (run : List ο) : σ := run.foldl perform s

/-- Every operation of the run is in the relation `P` to the state that it is
performed on. -/
def Each (P : σ → ο → Prop) (s : σ) : List ο → Prop
  | [] => True
  | o :: os => P s o ∧ Each P (perform s o) os

instance decidableEach {P : σ → ο → Prop} [∀ s o, Decidable (P s o)] :
    (s : σ) → (run : List ο) → Decidable (Each P s run)
  | _, [] => inferInstanceAs (Decidable True)
  | s, o :: os =>
    have := decidableEach (P := P) (perform s o) os
    inferInstanceAs (Decidable (P s o ∧ Each P (perform s o) os))

/-- Every state of the run has the property, from the first to the last. -/
def Throughout (P : σ → Prop) (s : σ) : List ο → Prop
  | [] => P s
  | o :: os => P s ∧ Throughout P (perform s o) os

instance decidableThroughout {P : σ → Prop} [DecidablePred P] :
    (s : σ) → (run : List ο) → Decidable (Throughout P s run)
  | s, [] => inferInstanceAs (Decidable (P s))
  | s, o :: os =>
    have := decidableThroughout (P := P) (perform s o) os
    inferInstanceAs (Decidable (P s ∧ Throughout P (perform s o) os))

@[simp] theorem after_nil (s : σ) : after s ([] : List ο) = s := rfl

@[simp] theorem after_cons (s : σ) (o : ο) (os : List ο) :
    after s (o :: os) = after (perform s o) os := rfl

/-- A run goes on from where it has come to. -/
theorem after_append (s : σ) (before later : List ο) :
    after s (before ++ later) = after (after s before) later := List.foldl_append

/-- What every operation of a run keeps, the run keeps. -/
theorem after_keeps {I : σ → Prop} {P : σ → ο → Prop}
    (hperform : ∀ s o, I s → P s o → I (perform s o)) :
    ∀ (run : List ο) (s : σ), I s → Each P s run → I (after s run) := by
  intro run
  induction run with
  | nil =>
    intro s hs _
    exact hs
  | cons o os ih =>
    intro s hs heach
    obtain ⟨ho, hrest⟩ := heach
    rw [after_cons]
    exact ih (perform s o) (hperform s o hs ho) hrest

/-- What some operations set and the others leave alone is, after a run, what was set last. -/
theorem after_lastSet {α : Type} {f : σ → α} {sets : ο → Option α}
    (hperform : ∀ s o, f (perform s o) = (sets o).getD (f s)) (run : List ο) (s : σ) :
    f (after s run) = (run.filterMap sets).getLast?.getD (f s) := by
  induction run generalizing s with
  | nil => rfl
  | cons o os ih =>
    rw [after_cons, ih, hperform, List.filterMap_cons]
    cases sets o with
    | none => rfl
    | some a => rw [List.getLast?_cons]; rfl

/-- What was set last stands in the run, and nothing is set behind it. -/
theorem lastSet_eq_some_iff {α : Type} {sets : ο → Option α} {run : List ο} {a : α} :
    (run.filterMap sets).getLast? = some a ↔
      ∃ before o later, run = before ++ o :: later ∧ sets o = some a ∧
        ∀ o' ∈ later, sets o' = none := by
  rw [List.getLast?_filterMap, List.findSome?_eq_some_iff]
  constructor
  · rintro ⟨later, o, before, hrun, ho, hlater⟩
    refine ⟨before.reverse, o, later.reverse, ?_, ho, by simpa using hlater⟩
    rw [← List.reverse_reverse run, hrun]
    simp
  · rintro ⟨before, o, later, rfl, ho, hlater⟩
    exact ⟨later.reverse, o, before.reverse, by simp, ho, by simpa using hlater⟩

variable {P : σ → Prop}

/-- What holds throughout a run holds at its beginning. -/
theorem Throughout.first {s : σ} {run : List ο} (h : Throughout P s run) : P s := by
  cases run with
  | nil => exact h
  | cons o os => exact h.1

theorem Throughout.mono {Q : σ → Prop} (hmono : ∀ s, P s → Q s) :
    ∀ {run : List ο} {s : σ}, Throughout P s run → Throughout Q s run := by
  intro run
  induction run with
  | nil =>
    intro s h
    exact hmono s h
  | cons o os ih =>
    intro s h
    exact ⟨hmono s h.1, ih h.2⟩

/-- What every operation between two such states keeps, the run keeps. -/
theorem Throughout.after_keeps {I : σ → Prop}
    (hperform : ∀ (s : σ) (o : ο), I s → P s → P (perform s o) → I (perform s o)) :
    ∀ (run : List ο) (s : σ), I s → Throughout P s run → I (after s run) := by
  intro run
  induction run with
  | nil =>
    intro s hs _
    exact hs
  | cons o os ih =>
    intro s hs h
    obtain ⟨hfirst, hrest⟩ := h
    exact ih _ (hperform s o hs hfirst hrest.first) hrest

/-- If it is known of every operation when the property survives it, it is known
of the run. -/
theorem throughout_iff_each {I : σ → Prop} {Q : σ → ο → Prop}
    (hperform : ∀ (s : σ) (o : ο), I s → P s → (P (perform s o) ↔ Q s o))
    (hkeeps : ∀ (s : σ) (o : ο), I s → P s → I (perform s o)) :
    ∀ (run : List ο) (s : σ), I s → P s → (Throughout P s run ↔ Each Q s run) := by
  intro run
  induction run with
  | nil =>
    intro s _ hfirst
    exact iff_of_true hfirst trivial
  | cons o os ih =>
    intro s hs hfirst
    have hnext := hperform s o hs hfirst
    constructor
    · rintro ⟨-, hrest⟩
      exact ⟨hnext.mp hrest.first, (ih _ (hkeeps s o hs hfirst) hrest.first).mp hrest⟩
    · rintro ⟨ho, hrest⟩
      exact ⟨hfirst, (ih _ (hkeeps s o hs hfirst) (hnext.mpr ho)).mpr hrest⟩

end Operable

instance {κ : Type} [Core κ] : Operable κ Call := ⟨Core.call⟩

def Call.isStep : Call → Bool
  | .step => true
  | .interrupt _ => false

/-- The byte of a request. -/
def Call.requested? : Call → Option Byte
  | .step => none
  | .interrupt byte => some byte

namespace Z80

/-- What is asked of a Z80. -/
inductive Signal where
  | step
  | interrupt (byte : Byte)
  /-- A non-maskable interrupt is requested. -/
  | nmi
  deriving DecidableEq, Repr

def Signal.isStep : Signal → Bool
  | .step => true
  | .interrupt _ | .nmi => false

/-- The byte of a request that can be masked. -/
def Signal.requested? : Signal → Option Byte
  | .interrupt byte => some byte
  | .step | .nmi => none

instance {μ δ : Type} [Mapper μ Byte] [Observer δ Byte Byte] :
    Operable (Machine μ δ) Signal where
  perform m
    | .step => m.step.state
    | .interrupt byte => m.interrupt byte
    | .nmi => m.interruptNmi

end Z80

namespace Lmc

/-- What is asked of a little man. -/
inductive Signal (δ : Type) where
  | step
  | interrupt (byte : Byte)
  | reset
  | start
  | stop
  /-- A number is put into the in-basket. -/
  | give (v : Word)
  /-- A number is put into the accumulator. -/
  | setAcc (v : Word)
  | connect (observer : δ)

def Signal.isStep {δ : Type} : Signal δ → Bool
  | .step => true
  | _ => false

instance {μ δ : Type} [Mapper μ Word] [Observer δ Port Word] :
    Operable (Machine μ δ) (Signal δ) where
  perform m
    | .step => m.step.state
    | .interrupt byte => Core.interrupt m byte
    | .reset => m.reset
    | .start => m.start
    | .stop => m.stop
    | .give v => m.give v
    | .setAcc v => m.setAcc v
    | .connect observer => m.connect observer

end Lmc

namespace Synacor

/-- What is asked of a Synacor machine. -/
inductive Signal (δ : Type) where
  | step
  | interrupt (byte : Byte)
  | reset
  | start
  | stop
  /-- Characters are typed. -/
  | give (chars : List Byte)
  | connect (observer : δ)

def Signal.isStep {δ : Type} : Signal δ → Bool
  | .step => true
  | _ => false

instance {μ δ : Type} [Mapper μ Word] [Observer δ Byte Byte] :
    Operable (Machine μ δ) (Signal δ) where
  perform m
    | .step => m.step.state
    | .interrupt byte => Core.interrupt m byte
    | .reset => m.reset
    | .start => m.start
    | .stop => m.stop
    | .give chars => m.give chars
    | .connect observer => m.connect observer

end Synacor

end Retrocore
