import Retrocore.Core
import Retrocore.Ports
import Retrocore.Proofs.Memory.Reads

/-!
# Steps that break off

A step that fails although its cells stand for an instruction breaks off in the
middle: what has been done by then stays done. `BreaksOff` says how much that is.
The memory has at most been read, which leaves it as it was unless a mapper makes
something of a read. The processors differ in what their instructions can fail at,
and have modules of their own.
-/

namespace Retrocore

/-- How the steps of a machine break off whose memory `memory` gives. `Unread`
says that the cells at the program counter stand for no instruction and are to be
run next; such a step fails before it has begun, and is none of these. -/
structure BreaksOff {σ μ κ : Type} [Core σ] [Inhabited κ] [Mapper μ κ] (memory : σ → Memory μ κ)
    (Unread : σ → Prop) (Leaves : σ → Fault → σ → Prop) (restore : σ → σ → σ) : Prop where
  /-- A step breaks off with a fault and a machine where it leaves them, and
  nowhere else. -/
  iff_leaves : ∀ (m m' : σ) (fault : Fault), ¬ Unread m →
    (Core.step m = ⟨m', .error fault⟩ ↔ Leaves m fault m')
  /-- The program counter is never left where it was. -/
  moved : ∀ (m m' : σ) (fault : Fault), ¬ Unread m → Core.step m = ⟨m', .error fault⟩ →
    Core.pc m' ≠ Core.pc m
  /-- The memory has been read, and not written to. -/
  looked : ∀ (m m' : σ) (fault : Fault), ¬ Unread m → Core.step m = ⟨m', .error fault⟩ →
    (memory m).Looked (memory m')
  /-- What may have changed, the memory included, is put back from `m`, and the
  rest is unchanged. -/
  restored : ∀ (m m' : σ) (fault : Fault), ¬ Unread m → Core.step m = ⟨m', .error fault⟩ →
    restore m' m = m

/-- Some cells further on is elsewhere. -/
theorem add_ofNat_ne (address : Word) {cells : Nat} (hpos : 0 < cells) (hlt : cells < 65536) :
    address + UInt16.ofNat cells ≠ address := by
  rw [Ne, UInt16.add_eq_left, UInt16.ofNat_eq_iff_mod_eq_toNat, Nat.mod_eq_of_lt hlt]
  exact Nat.ne_of_gt hpos

/-! ## What is passed on -/

namespace Ran

variable {σ : Type} {r : Ran σ} {s : σ} {fault : Fault}

/-- Whatever is made of a cost, nothing is made of a fault. -/
theorem map_result_eq_error_iff (f : Nat → Nat) :
    (⟨r.state, r.result.map f⟩ : Ran σ) = ⟨s, .error fault⟩ ↔ r = ⟨s, .error fault⟩ := by
  obtain ⟨t, result⟩ := r
  cases result with
  | ok n =>
    constructor
    · intro h
      cases h
    · intro h
      cases h
  | error fault' => exact Iff.rfl

end Ran

/-! ## Refused requests -/

namespace Ports

variable {δ : Type} [Observer δ Byte Byte]

/-- The ports after an input has been requested. Only the observers can have
changed. -/
def asked (p : Ports δ) (port : Byte) : Ports δ :=
  { p with observers := (Observer.notifyIn p.observers port).1 }

/-- The ports after a value has been put out. It is latched before the observers
hear of it. -/
def told (p : Ports δ) (port v : Byte) : Ports δ :=
  { p with
    outputs := p.outputs.set port.toNat v port.toNat_lt
    observers := (Observer.notifyOut p.observers port v).1 }

/-- An input from the port is refused. -/
def RefusesIn (p : Ports δ) (port : Byte) (fault : Fault) : Prop :=
  (Observer.notifyIn p.observers port).2 = .error fault

/-- The value is refused at the port. -/
def RefusesOut (p : Ports δ) (port v : Byte) (fault : Fault) : Prop :=
  (Observer.notifyOut p.observers port v).2 = .error fault

/-- An input fails if an observer refuses it; the observers have been asked all the
same. -/
theorem read_eq_error_iff {p p' : Ports δ} {port : Byte} {fault : Fault} :
    p.read port = (p', .error fault) ↔ p.RefusesIn port fault ∧ p' = p.asked port := by
  unfold read RefusesIn asked
  generalize Observer.notifyIn p.observers port = heard
  obtain ⟨observers, answer⟩ := heard
  cases answer with
  | ok v =>
    constructor
    · intro h
      cases h
    · rintro ⟨h, _⟩
      cases h
  | error refusal =>
    constructor
    · intro h
      cases h
      exact ⟨rfl, rfl⟩
    · rintro ⟨h, rfl⟩
      cases h
      rfl

/-- An output fails if an observer refuses it; the value has been latched by then. -/
theorem write_eq_error_iff {p p' : Ports δ} {port v : Byte} {fault : Fault} :
    p.write port v = (p', .error fault) ↔ p.RefusesOut port v fault ∧ p' = p.told port v := by
  constructor
  · intro h
    exact ⟨congrArg Prod.snd h, (congrArg Prod.fst h).symm⟩
  · rintro ⟨h, rfl⟩
    exact Prod.ext rfl h

end Ports

end Retrocore
