import Retrocore.Execution.Driver
import Retrocore.Proofs.Calls
import Mathlib.Data.List.TakeWhile

/-!
# Chronicles of a driver

A chronicle is a monitor that writes down everything it hears, in order. A
monitor cannot change what a driver does, so what is proved of a driver with a
chronicle holds of every driver; and the chronicle tells apart what the driver's
state alone does not: which calls it has made on its core, in which order, and
how they went.

`Driver.Op` is what may be done to a driver from outside between two ticks.
-/

namespace Retrocore.Execution

/-! ## Entries -/

namespace Happening

/-- The call on the core that an entry stands for. -/
def call? : Happening → Option Call
  | .stepped _ => some .step
  | .interrupted byte => some (.interrupt byte)
  | _ => none

/-- Nothing has gone wrong: no step has failed, and the core can run if it was
asked. -/
def fine : Happening → Bool
  | .tested able => able
  | .stepped (some _) => false
  | _ => true

end Happening

/-- The calls on the core, out of everything that happened. -/
def callsOf (log : List Happening) : List Call := log.filterMap Happening.call?

/-- What happened before anything went wrong. -/
def fineLog (log : List Happening) : List Happening := log.takeWhile Happening.fine

/-- Nothing has gone wrong so far. -/
def AllFine (log : List Happening) : Prop := ∀ e ∈ log, e.fine

/-- One more entry is one more call or none. -/
theorem callsOf_snoc (log : List Happening) (e : Happening) :
    callsOf (log ++ [e]) = callsOf log ++ e.call?.toList := by
  unfold callsOf
  rw [List.filterMap_append]
  cases hcall : e.call? with
  | none => rw [List.filterMap_cons_none hcall]; rfl
  | some c => rw [List.filterMap_cons_some hcall]; rfl

theorem callsOf_snoc_none {log : List Happening} {e : Happening}
    (he : e.call? = none) : callsOf (log ++ [e]) = callsOf log := by
  rw [callsOf_snoc, he]
  exact List.append_nil _

theorem allFine_append {log : List Happening} {e : Happening} :
    AllFine (log ++ [e]) ↔ AllFine log ∧ e.fine := by
  unfold AllFine
  simp only [List.mem_append, List.mem_singleton, or_imp, forall_and, forall_eq]

/-- While nothing has gone wrong, everything counts. -/
theorem fineLog_eq {log : List Happening} (h : AllFine log) :
    fineLog log = log := by
  unfold fineLog
  rw [List.takeWhile_eq_self_iff]
  exact h

/-- Neither what went wrong counts, nor what came after it. -/
theorem fineLog_append {log : List Happening} {e : Happening}
    (h : ¬ AllFine (log ++ [e])) :
    fineLog (log ++ [e]) = fineLog log := by
  unfold fineLog
  -- along the log, up to the first entry that is not fine, which may be `e`
  induction log with
  | nil =>
    have he : ¬ e.fine = true := by
      intro he
      exact h (allFine_append.mpr ⟨fun _ hmem => absurd hmem List.not_mem_nil, he⟩)
    rw [List.nil_append, List.takeWhile_cons_of_neg he, List.takeWhile_nil]
  | cons x xs ih =>
    by_cases hx : x.fine = true
    · have hxs : ¬ AllFine (xs ++ [e]) := by
        intro hall
        apply h
        intro y hy
        rcases List.mem_cons.mp hy with rfl | hy
        · exact hx
        · exact hall y hy
      rw [List.cons_append, List.takeWhile_cons_of_pos hx,
        List.takeWhile_cons_of_pos hx, ih hxs]
    · rw [List.cons_append, List.takeWhile_cons_of_neg hx,
        List.takeWhile_cons_of_neg hx]

/-- An entry that is no call leaves the calls as they were, fine or not. -/
theorem callsOf_fineLog_append {log : List Happening} {e : Happening}
    (he : e.call? = none) :
    callsOf (fineLog (log ++ [e])) = callsOf (fineLog log) := by
  by_cases h : AllFine (log ++ [e])
  · rw [fineLog_eq h, fineLog_eq (allFine_append.mp h).1, callsOf_snoc_none he]
  · rw [fineLog_append h]

/-! ## The monitor -/

/-- A monitor and everything it has heard, oldest first. -/
structure Chronicle (ω : Type) where
  inner : ω
  log : List Happening := []

instance {ω κ : Type} [Monitor ω κ Happening] :
    Monitor (Chronicle ω) κ Happening where
  hear w core what := ⟨Monitor.hear w.inner core what, w.log ++ [what]⟩

/-! ## What may be done to a driver -/

namespace Driver

/-- A tick, a transition from outside, or an edit of the breakpoints and the
debug switch. -/
inductive Op where
  | perform
  /-- A tick, cut off after the given number of steps: whatever is true for
  every number is true at every moment of a tick, even of one that never ends
  because its steps cost nothing. -/
  | performWithin (limit : Nat)
  | transition (event : Event)
  | edit (debugger : Debugger)

variable {κ γ ι ω : Type}

/-- What a driver with a chronicle has been through. -/
def log (d : Driver κ γ ι (Chronicle ω)) : List Happening := d.monitor.log

variable [Monitor ω κ Happening]

/-- Telling the monitor adds an entry. -/
theorem log_tell (d : Driver κ γ ι (Chronicle ω)) (what : Happening) :
    (d.tell what).log = d.log ++ [what] := rfl

/-- A core that cannot run has gone wrong. -/
theorem not_allFine_tested (d : Driver κ γ ι (Chronicle ω)) :
    ¬ AllFine (d.tell (.tested false)).log := by
  rw [log_tell, allFine_append]
  rintro ⟨_, hfine⟩
  cases hfine

variable [Core κ] [Governor γ] [Input ι]

/-- The driver afterwards; a fault of the operation does not keep it from going
on. -/
def apply (d : Driver κ γ ι ω) : Op → Driver κ γ ι ω
  | .perform => d.perform.1
  | .performWithin limit => (d.performWithin limit).1
  | .transition event => (d.transition event).1
  | .edit debugger => { d with debugger }

/-- The driver after a sequence of operations. -/
def applyAll (d : Driver κ γ ι ω) (ops : List Op) : Driver κ γ ι ω :=
  ops.foldl apply d

end Driver

end Retrocore.Execution
