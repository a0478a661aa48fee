import Retrocore.Fault

/-!
# Observers

Whatever is connected to a machine's ports hears every request: an input may be
answered with a value, and any request may be refused. Observers have a state of
their own and are called in the order in which they were connected. The first
refusal ends a request; the first value supplied is the answer, though the
observers behind it still hear the request.
-/

namespace Retrocore

/-- Something connected to ports of type `π` that carry values of type `ν`. -/
class Observer (δ : Type) (π ν : outParam Type) where
  /-- An input is requested; an answer replaces whatever the port would read. -/
  onIn : δ → π → δ × Except Fault (Option ν)
  /-- A value is put out. -/
  onOut : δ → π → ν → δ × Except Fault Unit

namespace Observer

variable {δ π ν : Type} [Observer δ π ν]

/-- All observers hear an input request. -/
def notifyIn : List δ → π → List δ × Except Fault (Option ν)
  | [], _ => ([], .ok none)
  | d :: ds, port =>
    match onIn d port with
    | (d, .error fault) => (d :: ds, .error fault)
    | (d, .ok answer) =>
      let (ds, rest) := notifyIn ds port
      (d :: ds, rest.map fun later => answer.or later)

/-- All observers hear a value put out. -/
def notifyOut : List δ → π → ν → List δ × Except Fault Unit
  | [], _, _ => ([], .ok ())
  | d :: ds, port, v =>
    match onOut d port v with
    | (d, .error fault) => (d :: ds, .error fault)
    | (d, .ok ()) =>
      let (ds, rest) := notifyOut ds port v
      (d :: ds, rest)

/-- Observers of two kinds on the same ports. -/
instance {ε : Type} [Observer ε π ν] : Observer (δ ⊕ ε) π ν where
  onIn d port :=
    match d with
    | .inl d =>
      let (d, answer) := onIn d port
      (.inl d, answer)
    | .inr e =>
      let (e, answer) := onIn e port
      (.inr e, answer)
  onOut d port v :=
    match d with
    | .inl d =>
      let (d, result) := onOut d port v
      (.inl d, result)
    | .inr e =>
      let (e, result) := onOut e port v
      (.inr e, result)

/-- Observers in one line: how many there are. -/
def describe (ds : List δ) : String := s!"Observers({ds.length})"

end Observer

/-! ## Recorders -/

/-- Ports with numbers, by which a refused request names them. -/
class Numbered (π : Type) where
  number : π → Word

instance : Numbered Byte := ⟨UInt8.toUInt16⟩

/-- A request as an observer hears it. -/
inductive Request (π ν : Type) where
  | inp (port : π)
  | out (port : π) (value : ν)
  deriving DecidableEq, Repr

/-- An observer that notes what it hears. It answers inputs from some ports,
always with the same value, and refuses every request at others. -/
structure Recorder (π ν : Type) where
  answers : List (π × ν) := []
  refused : List π := []
  /-- Newest first. -/
  heard : List (Request π ν) := []

namespace Recorder

variable {π ν : Type} [DecidableEq π] [Numbered π]

/-- Notes a request, and refuses it or lets it through. -/
def hear (r : Recorder π ν) (what : Request π ν) (port : π) : Recorder π ν × Except Fault Unit :=
  ({ r with heard := what :: r.heard },
    if port ∈ r.refused then .error (.illegalPort (Numbered.number port)) else .ok ())

instance : Observer (Recorder π ν) π ν where
  onIn r port :=
    let (r, result) := r.hear (.inp port) port
    (r, result.map fun _ => r.answers.lookup port)
  onOut r port v := r.hear (.out port v) port

end Recorder

end Retrocore
