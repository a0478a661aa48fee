import Retrocore.Word
import Retrocore.Observer

/-!
# Ports

The 8080 and the Z80 have 256 ports. An input reads what an observer supplies,
and otherwise the value last latched for the port from outside. An output is
latched before the observers hear of it.
-/

namespace Retrocore

structure Ports (δ : Type) where
  /-- What each port reads when nobody answers. -/
  inputs : Vector Byte 256 := .replicate 256 0
  /-- What was last put out to each port. -/
  outputs : Vector Byte 256 := .replicate 256 0
  observers : List δ := []

namespace Ports

variable {δ : Type}

/-- Latches a value for later inputs from a port. -/
def input (p : Ports δ) (port v : Byte) : Ports δ :=
  { p with inputs := p.inputs.set port.toNat v port.toNat_lt }

/-- The value that the port reads when nobody answers. -/
def latched (p : Ports δ) (port : Byte) : Byte := p.inputs.get ⟨port.toNat, port.toNat_lt⟩

/-- The value last put out to the port, zero if there is none. -/
def lastOut (p : Ports δ) (port : Byte) : Byte := p.outputs.get ⟨port.toNat, port.toNat_lt⟩

def connect (p : Ports δ) (observer : δ) : Ports δ :=
  { p with observers := p.observers ++ [observer] }

def read [Observer δ Byte Byte] (p : Ports δ) (port : Byte) : Ports δ × Except Fault Byte :=
  let (observers, answer) := Observer.notifyIn p.observers port
  ({ p with observers }, answer.map fun v => v.getD (p.latched port))

def write [Observer δ Byte Byte] (p : Ports δ) (port v : Byte) : Ports δ × Except Fault Unit :=
  let (observers, result) := Observer.notifyOut p.observers port v
  ({ p with outputs := p.outputs.set port.toNat v port.toNat_lt, observers }, result)

end Ports

end Retrocore
