import Retrocore.Fault
import Retrocore.Text.Blank
import Retrocore.Text.Numeral

/-!
# Breakpoints

A breakpoint is an address and the line it was made from, so that a list of
breakpoints shows the lines that the user picked. The debugger keeps at most one
for each address, in the order of the addresses, and a switch that says whether
they count.
-/

namespace Retrocore

structure Breakpoint where
  address : Word
  line : String
  deriving DecidableEq, Repr

namespace Breakpoint

/-- A breakpoint without a line; it is shown by its address. -/
def ofAddress (address : Word) : Breakpoint := ⟨address, Text.bareHex 4 address.toNat⟩

/-- The numeral that a line begins with: what stands before the first tab,
without white space around it and without one `0x`. -/
def numeral (line : String) : List Char :=
  let field := Text.trimBlanks (line.toList.takeWhile (· != '\t'))
  (Text.hexMarked? field).getD field

/-- A breakpoint at the address that a line begins with. -/
def ofLine (radix : Nat) (line : String) : Except Fault Breakpoint :=
  match Text.readNumeral radix 65535 (numeral line) with
  | .ok n => .ok ⟨UInt16.ofNat n, line⟩
  | .error _ => .error (.invalidBreakpoint line)

end Breakpoint

structure Debugger where
  /-- In ascending order of their addresses. -/
  breakpoints : List Breakpoint := []
  /-- Whether breakpoints count. -/
  debugMode : Bool := false
  deriving DecidableEq, Repr

namespace Debugger

/-- Puts a breakpoint in its place in an ascending list; one at the same address
goes. -/
def insert (b : Breakpoint) : List Breakpoint → List Breakpoint
  | [] => [b]
  | c :: cs =>
    if b.address < c.address then b :: c :: cs
    else if b.address = c.address then b :: cs
    else c :: insert b cs

def add (d : Debugger) (b : Breakpoint) : Debugger :=
  { d with breakpoints := insert b d.breakpoints }

def find? (d : Debugger) (address : Word) : Option Breakpoint :=
  d.breakpoints.find? (·.address == address)

def contains (d : Debugger) (address : Word) : Bool :=
  d.breakpoints.any (·.address == address)

def remove (d : Debugger) (address : Word) : Debugger :=
  { d with breakpoints := d.breakpoints.filter (·.address != address) }

def clear (d : Debugger) : Debugger := { d with breakpoints := [] }

/-- Whether to stop before the instruction at an address. -/
def shouldBreak (d : Debugger) (pc : Word) : Bool := d.debugMode && d.contains pc

end Debugger

end Retrocore
