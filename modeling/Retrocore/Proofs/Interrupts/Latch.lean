import Retrocore.Proofs.Operations
import Retrocore.Proofs.Frames.I8080
import Retrocore.Proofs.Frames.Z80
import Retrocore.Proofs.Frames.Lr35902

/-!
# The latch of interrupt requests

The 8080, the Z80 and the LR35902 keep one request for an interrupt until they
may service it. `requests_kept` says of every run from a new processor, whatever
its program does and whichever of its steps fail, that the latch holds the
newest request unless that has been serviced, and that a step services what the
latch holds exactly if interrupts are let through and no non-maskable interrupt
comes first. Hence no request is lost or serviced twice.

`Latch` gathers what the three cores have to provide for that, `Latch.Sound` is
the invariant that ties the latch to the history of requests and services, and
`Latch.kept` is the argument, made once.
-/

namespace Retrocore

/-- What happens to a latch. -/
inductive Latch.Event where
  | requested (byte : Byte)
  | serviced (byte : Byte)
  deriving DecidableEq, Repr

/-- The request that a history leaves open: the newest, unless it has been
serviced. -/
def Latch.outstanding (history : List Latch.Event) : Option Byte :=
  match history.getLast? with
  | some (.requested byte) => some byte
  | some (.serviced _) | none => none

/-- A machine of type `σ`, run by operations of type `ο`, as something that
latches requests. -/
structure Latch (σ ο : Type) [Operable σ ο] where
  pending : σ → Option Byte
  /-- Whether interrupts are let through. -/
  enabled : σ → Bool
  /-- Whether a non-maskable interrupt is pending. -/
  nmiPending : σ → Bool
  /-- The request that the next step services. -/
  serviced? : σ → Option Byte
  /-- The machine once it has serviced a request. -/
  service : σ → Byte → σ
  isStep : ο → Bool
  requested? : ο → Option Byte
  serviced_iff : ∀ s byte, serviced? s = some byte ↔
    pending s = some byte ∧ enabled s = true ∧ nmiPending s = false
  perform_step : ∀ {s o byte}, isStep o = true → serviced? s = some byte →
    Operable.perform s o = service s byte
  pending_step : ∀ {s o}, isStep o = true →
    pending (Operable.perform s o) = if (serviced? s).isSome then none else pending s
  pending_request : ∀ {s o}, isStep o = false →
    pending (Operable.perform s o) = (requested? o).or (pending s)

namespace Latch

variable {σ ο : Type} [Operable σ ο]

/-- What an operation does to the latch. -/
def event? (l : Latch σ ο) (s : σ) (o : ο) : Option Event :=
  if l.isStep o then (l.serviced? s).map .serviced else (l.requested? o).map .requested

/-- What happens to the latch in a run. -/
def history (l : Latch σ ο) (s : σ) : List ο → List Event
  | [] => []
  | o :: os => (l.event? s o).toList ++ l.history (Operable.perform s o) os

variable (l : Latch σ ο)

/-- After a run, the latch holds what it should, and the next step does with it
what it should. -/
structure Kept (s : σ) (run : List ο) : Prop where
  /-- The latch holds the newest request since the last service. -/
  pending : l.pending (Operable.after s run) = outstanding (l.history s run)
  /-- The next step services a request exactly if it is the one in the latch and
  may be serviced. -/
  serviced_iff : ∀ byte, l.serviced? (Operable.after s run) = some byte ↔
    l.pending (Operable.after s run) = some byte ∧
    l.enabled (Operable.after s run) = true ∧
    l.nmiPending (Operable.after s run) = false
  /-- Servicing the request is then all that the step does. -/
  step_eq_service : ∀ o byte, l.isStep o = true →
    l.serviced? (Operable.after s run) = some byte →
      Operable.perform (Operable.after s run) o =
        l.service (Operable.after s run) byte
  /-- Every request that has been serviced was the newest one, and had not been
  serviced before. -/
  serviced_once : ∀ before byte rest,
    l.history s run = before ++ .serviced byte :: rest →
      before.getLast? = some (.requested byte)
  /-- What comes next after a request is its service or a newer request. -/
  never_lost : ∀ before byte next rest,
    l.history s run = before ++ .requested byte :: next :: rest →
      next = .serviced byte ∨ ∃ newer, next = .requested newer

/-! ## Histories -/

/-- A request is outstanding if it is the latest thing that has happened. -/
theorem outstanding_eq_some {history : List Event} {byte : Byte}
    (h : outstanding history = some byte) :
    history.getLast? = some (.requested byte) := by
  unfold outstanding at h
  split at h
  next requested hlast =>
    cases h
    exact hlast
  next => cases h
  next => cases h

/-- An event that a history with one more event is split at is an earlier event,
or the last. -/
theorem concat_eq_append_cons {history before rest : List Event} {e last : Event}
    (h : history ++ [last] = before ++ e :: rest) :
    (history = before ∧ last = e) ∨ ∃ rest', history = before ++ e :: rest' := by
  rcases List.append_eq_append_iff.mp h with ⟨middle, hbefore, hlast⟩ | ⟨middle, hhistory, hrest⟩
  · cases middle with
    | nil =>
      rw [List.append_nil] at hbefore
      exact .inl ⟨hbefore.symm, (List.cons.inj hlast).1⟩
    | cons first middle => cases middle <;> cases (List.cons.inj hlast).2
  · cases middle with
    | nil =>
      rw [List.append_nil] at hhistory
      exact .inl ⟨hhistory, (List.cons.inj hrest).1.symm⟩
    | cons first middle =>
      obtain ⟨rfl, _⟩ := List.cons.inj hrest
      exact .inr ⟨middle, hhistory⟩

/-! ## The invariant -/

/-- The latch holds the request that the history leaves open, and everything
serviced was requested right before. -/
structure Sound (history : List Event) (s : σ) : Prop where
  pending : l.pending s = outstanding history
  serviced : ∀ before byte rest, history = before ++ .serviced byte :: rest →
    before.getLast? = some (.requested byte)

variable {l} {history : List Event} {s : σ}

/-- Where nothing happens to the latch, it stays as it is. -/
theorem Sound.quiet (h : l.Sound history s) {s' : σ} (hpending : l.pending s' = l.pending s) :
    l.Sound history s' :=
  ⟨hpending.trans h.pending, h.serviced⟩

/-- A request is latched in the place of what was there. -/
theorem Sound.request (h : l.Sound history s) {s' : σ} {byte : Byte}
    (hpending : l.pending s' = some byte) :
    l.Sound (history ++ [.requested byte]) s' := by
  constructor
  · unfold outstanding
    rw [List.getLast?_concat, hpending]
  · intro before serviced rest hsplit
    rcases concat_eq_append_cons hsplit with ⟨_, hlast⟩ | ⟨rest', hearlier⟩
    · cases hlast
    · exact h.serviced before serviced rest' hearlier

/-- A request that is serviced was outstanding, and leaves the latch empty. -/
theorem Sound.service (h : l.Sound history s) {s' : σ} {byte : Byte}
    (hserviced : l.serviced? s = some byte) (hpending : l.pending s' = none) :
    l.Sound (history ++ [.serviced byte]) s' := by
  constructor
  · unfold outstanding
    rw [List.getLast?_concat, hpending]
  · intro before other rest hsplit
    rcases concat_eq_append_cons hsplit with ⟨rfl, hlast⟩ | ⟨rest', hearlier⟩
    · cases hlast
      obtain ⟨hlatched, _⟩ := (l.serviced_iff s byte).mp hserviced
      exact outstanding_eq_some (h.pending.symm.trans hlatched)
    · exact h.serviced before other rest' hearlier

/-- Every operation keeps the invariant. -/
theorem Sound.perform (h : l.Sound history s) (o : ο) :
    l.Sound (history ++ (l.event? s o).toList) (Operable.perform s o) := by
  unfold event?
  cases hstep : l.isStep o with
  | true =>
    have hpending := l.pending_step (s := s) hstep
    cases hserviced : l.serviced? s with
    | none =>
      rw [hserviced] at hpending
      simpa using h.quiet hpending
    | some byte =>
      rw [hserviced] at hpending
      exact h.service hserviced hpending
  | false =>
    have hpending := l.pending_request (s := s) hstep
    cases hrequested : l.requested? o with
    | none =>
      rw [hrequested] at hpending
      simpa using h.quiet hpending
    | some byte =>
      rw [hrequested] at hpending
      exact h.request hpending

/-- So does every run. -/
theorem Sound.after (h : l.Sound history s) (run : List ο) :
    l.Sound (history ++ l.history s run) (Operable.after s run) := by
  induction run generalizing history s with
  | nil =>
    rw [Latch.history, List.append_nil]
    exact h
  | cons o os ih =>
    have hrest := ih (h.perform o)
    rw [List.append_assoc] at hrest
    exact hrest

/-- A machine with an empty latch keeps its requests in every run. -/
theorem kept (hs : l.pending s = none) (run : List ο) : l.Kept s run := by
  have hempty : l.Sound [] s := ⟨hs, fun before byte rest h => by simp at h⟩
  have hsound : l.Sound (l.history s run) (Operable.after s run) := hempty.after run
  refine ⟨hsound.pending, l.serviced_iff _, fun o byte => l.perform_step,
    hsound.serviced, ?_⟩
  intro before byte next rest h
  cases next with
  | requested newer => exact .inr ⟨newer, rfl⟩
  | serviced other =>
    -- the service was of the newest request, which is the one before it
    have hbefore : l.history s run =
        (before ++ [.requested byte]) ++ .serviced other :: rest := by
      rw [h, List.append_assoc]
      rfl
    have hlast := hsound.serviced _ other rest hbefore
    rw [List.getLast?_concat] at hlast
    cases hlast
    exact .inl rfl

end Latch

/-! ## The three cores -/

namespace I8080

variable {μ δ : Type} (m : Machine μ δ)

/-- The request that the next step services. -/
def Machine.serviced? : Option Byte :=
  match m.action with
  | .service opcode => some opcode
  | .idle | .run => none

theorem Machine.serviced?_eq_some_iff (opcode : Byte) :
    m.serviced? = some opcode ↔ m.action = .service opcode := by
  unfold serviced?
  cases m.action <;> simp

variable [Mapper μ Byte] [Observer δ Byte Byte]

/-- A step takes the request out of the latch exactly if it services it. -/
theorem Machine.pending_step_eq_ite :
    m.step.state.pending = if m.serviced?.isSome then none else m.pending := by
  rw [m.pending_step]
  unfold serviced?
  cases m.action <;> rfl

def latch (μ δ : Type) [Mapper μ Byte] [Observer δ Byte Byte] :
    Latch (Machine μ δ) Call where
  pending m := m.pending
  enabled m := m.inte
  nmiPending _ := false
  serviced? m := m.serviced?
  service m byte := (m.service byte).state
  isStep := Call.isStep
  requested? := Call.requested?
  serviced_iff m byte := by
    rw [m.serviced?_eq_some_iff, m.action_eq_service_iff]
    simp
  perform_step {m o byte} hstep h := by
    cases o with
    | step =>
      rw [m.serviced?_eq_some_iff] at h
      exact congrArg Ran.state (Machine.step_of_service h)
    | interrupt => cases hstep
  pending_step {m o} hstep := by
    cases o with
    | step => exact m.pending_step_eq_ite
    | interrupt => cases hstep
  pending_request {m o} hstep := by
    cases o with
    | step => cases hstep
    | interrupt byte => rfl

end I8080

namespace Z80

variable {μ δ : Type} (m : Machine μ δ)

/-- The maskable request that the next step services. -/
def Machine.serviced? : Option Byte :=
  match m.action with
  | .service byte => some byte
  | .nmi | .idle | .run => none

theorem Machine.serviced?_eq_some_iff (byte : Byte) :
    m.serviced? = some byte ↔ m.action = .service byte := by
  unfold serviced?
  cases m.action <;> simp

variable [Mapper μ Byte] [Observer δ Byte Byte]

/-- A step takes the request out of the latch exactly if it services it. -/
theorem Machine.pending_step_eq_ite :
    m.step.state.pending = if m.serviced?.isSome then none else m.pending := by
  rw [m.pending_step]
  unfold serviced?
  cases m.action <;> rfl

def latch (μ δ : Type) [Mapper μ Byte] [Observer δ Byte Byte] :
    Latch (Machine μ δ) Signal where
  pending m := m.pending
  enabled m := m.iff1
  nmiPending m := m.nmiPending
  serviced? m := m.serviced?
  service m byte := (m.service byte).state
  isStep := Signal.isStep
  requested? := Signal.requested?
  serviced_iff m byte := by
    rw [m.serviced?_eq_some_iff, m.action_eq_service_iff]
  perform_step {m o byte} hstep h := by
    cases o with
    | step =>
      rw [m.serviced?_eq_some_iff] at h
      exact congrArg Ran.state (Machine.step_of_service h)
    | interrupt => cases hstep
    | nmi => cases hstep
  pending_step {m o} hstep := by
    cases o with
    | step => exact m.pending_step_eq_ite
    | interrupt => cases hstep
    | nmi => cases hstep
  pending_request {m o} hstep := by
    cases o with
    | step => cases hstep
    | interrupt byte => rfl
    | nmi => rfl

end Z80

namespace Lr35902

variable {μ : Type} (m : Machine μ)

/-- The request that the next step services. -/
def Machine.serviced? : Option Byte :=
  match m.action with
  | .service vector => some vector
  | .idle | .run => none

theorem Machine.serviced?_eq_some_iff (vector : Byte) :
    m.serviced? = some vector ↔ m.action = .service vector := by
  unfold serviced?
  cases m.action <;> simp

variable [Mapper μ Byte]

/-- A step takes the request out of the latch exactly if it services it. -/
theorem Machine.pending_step_eq_ite :
    m.step.state.pending = if m.serviced?.isSome then none else m.pending := by
  unfold serviced?
  cases haction : m.action with
  | service vector =>
    rw [step_of_service haction]
    rfl
  | idle =>
    rw [step_of_idle haction]
    rfl
  | run =>
    cases hfetched : m.fetched with
    | ok d =>
      rw [step_of_fetched haction hfetched]
      exact (congrArg Control.pending (control_execute _ d.instruction)).trans
        (Instruction.pending_controlAfter d.instruction _)
    | error u =>
      rw [step_of_undecodable haction hfetched]
      rfl

def latch (μ : Type) [Mapper μ Byte] : Latch (Machine μ) Call where
  pending m := m.pending
  enabled m := m.ime
  nmiPending _ := false
  serviced? m := m.serviced?
  service m vector := m.service vector
  isStep := Call.isStep
  requested? := Call.requested?
  serviced_iff m vector := by
    rw [m.serviced?_eq_some_iff, m.action_eq_service_iff]
    simp
  perform_step {m o vector} hstep h := by
    cases o with
    | step =>
      rw [m.serviced?_eq_some_iff] at h
      exact congrArg Ran.state (Machine.step_of_service h)
    | interrupt => cases hstep
  pending_step {m o} hstep := by
    cases o with
    | step => exact m.pending_step_eq_ite
    | interrupt => cases hstep
  pending_request {m o} hstep := by
    cases o with
    | step => cases hstep
    | interrupt vector => rfl

end Lr35902

/-- **No request is lost or serviced twice**, none is serviced while interrupts
are shut off, and none in the step that services a non-maskable interrupt. This
holds of every run from a new processor, whatever its memory and mapper and
whatever is connected to its ports. -/
theorem requests_kept {μ δ : Type} [Mapper μ Byte] [Observer δ Byte Byte]
    (memory : Memory μ Byte) (initialPc : Word) (ports : Ports δ) :
    (∀ calls, (I8080.latch μ δ).Kept
      { (I8080.Machine.new memory initialPc : I8080.Machine μ δ) with ports } calls) ∧
    (∀ signals, (Z80.latch μ δ).Kept
      { (Z80.Machine.new memory initialPc : Z80.Machine μ δ) with ports } signals) ∧
    (∀ calls, (Lr35902.latch μ).Kept (Lr35902.Machine.new memory) calls) :=
  ⟨Latch.kept rfl, Latch.kept rfl, Latch.kept rfl⟩

end Retrocore
