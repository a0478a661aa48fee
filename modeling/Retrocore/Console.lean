import Retrocore.Observer
import Retrocore.Lmc.Machine
import Retrocore.Text.Utf8

/-!
# Consoles

A console holds what has been typed and not yet read, and what has been printed.
`PortWiring` connects one to two ports of a byte machine; `NumberDesk` connects
one to the baskets of the Little Man Computer, which reads whole numbers. Either
way the whole is a `Terminal`.
-/

namespace Retrocore

structure Console where
  typed : List Byte := []
  printed : Array Byte := #[]
  deriving Repr

namespace Console

/-- Adds bytes behind those typed before. -/
def type (c : Console) (bytes : List Byte) : Console := { c with typed := c.typed ++ bytes }

/-- The first byte that waits to be read, and the console without it. -/
def poll (c : Console) : Option Byte × Console :=
  match c.typed with
  | [] => (none, c)
  | b :: rest => (some b, { c with typed := rest })

/-- Whether a byte waits to be read. -/
def hasInput (c : Console) : Bool := !c.typed.isEmpty

def print (c : Console) (b : Byte) : Console := { c with printed := c.printed.push b }

def printText (c : Console) (s : String) : Console := (Text.utf8 s).foldl print c

/-- What was printed, and the console without it. -/
def takePrinted (c : Console) : List Byte × Console :=
  (c.printed.toList, { c with printed := #[] })

end Console

/-- A console with what connects it to a machine. -/
structure Terminal (ω : Type) where
  wiring : ω
  console : Console := {}
  deriving Repr

namespace Terminal

variable {ω : Type}

/-- Adds bytes behind those typed before. -/
def type (t : Terminal ω) (bytes : List Byte) : Terminal ω :=
  { t with console := t.console.type bytes }

/-- What was printed, and the terminal without it. -/
def takePrinted (t : Terminal ω) : List Byte × Terminal ω :=
  let (printed, console) := t.console.takePrinted
  (printed, { t with console })

end Terminal

/-! ## A console at ports -/

/-- The port that characters come from and go to, and the port that reads one
while a key waits. -/
structure PortWiring where
  data : Byte
  status : Option Byte
  deriving DecidableEq, Repr

namespace PortWiring

/-- What the console answers at a port. The data port has no answer while no key
waits. -/
def input (w : PortWiring) (c : Console) (port : Byte) : Option Byte × Console :=
  if port = w.data then c.poll
  else if w.status = some port then (some (bitByte c.hasInput), c)
  else (none, c)

def output (w : PortWiring) (c : Console) (port v : Byte) : Console :=
  if port = w.data then c.print v else c

end PortWiring

instance : Observer (Terminal PortWiring) Byte Byte where
  onIn t port :=
    let (answer, console) := t.wiring.input t.console port
    ({ t with console }, .ok answer)
  onOut t port v := ({ t with console := t.wiring.output t.console port v }, .ok ())

/-! ## A console for numbers -/

/-- The digits of the line that is being typed, newest first. -/
structure NumberDesk where
  line : List Byte := []
  deriving DecidableEq, Repr

namespace NumberDesk

/-- The number that decimal digits stand for, oldest digit last. -/
def number : List Byte → Nat
  | [] => 0
  | d :: older => 10 * number older + (d.toNat - 48)

/-- Reads typed bytes until a line of digits is complete. Bytes that are neither
digits nor line ends count for nothing. A number too large for a word is
dropped, but ends the request as well. -/
def read (desk : NumberDesk) : List Byte → Option Word × NumberDesk × List Byte
  | [] => (none, desk, [])
  | b :: rest =>
    if (b = 10 ∨ b = 13) ∧ desk.line ≠ [] then
      let n := number desk.line
      (if n < 65536 then some (UInt16.ofNat n) else none, {}, rest)
    else if 48 ≤ b ∧ b ≤ 57 then read { line := b :: desk.line } rest
    else read desk rest

def input (desk : NumberDesk) (c : Console) : Option Word × NumberDesk × Console :=
  let (answer, desk, typed) := desk.read c.typed
  (answer, desk, { c with typed })

/-- Numbers are printed one to a line, characters as they are. -/
def output (c : Console) (port : Lmc.Port) (v : Word) : Console :=
  match port with
  | .otc => c.print (lowByte v)
  | .inp | .out => c.printText s!"{v.toNat}\n"

end NumberDesk

instance : Observer (Terminal NumberDesk) Lmc.Port Word where
  onIn t _ :=
    let (answer, wiring, console) := t.wiring.input t.console
    (⟨wiring, console⟩, .ok answer)
  onOut t port v := ({ t with console := NumberDesk.output t.console port v }, .ok ())

end Retrocore
