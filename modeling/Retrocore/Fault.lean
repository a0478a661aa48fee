import Retrocore.Word
import Retrocore.Text.Hex
import Retrocore.Text.Quoted

/-!
# Faults

What can go wrong while a machine runs or is set up. `Fault` names the causes;
`Fault.message` is the only place where they are put into words.
-/

namespace Retrocore

/-- The dispatch table in which an opcode was looked up. Only the Z80 has all
five. -/
inductive OpcodeTable where
  | root
  | bits
  | extended
  | indexed
  | indexedBits
  deriving DecidableEq, Repr

def OpcodeTable.name : OpcodeTable → String
  | .root => "root"
  | .bits => "bits"
  | .extended => "extended"
  | .indexed => "indexed"
  | .indexedBits => "indexed bits"

inductive Fault where
  /-- The opcode stands for no instruction of the table it was looked up in. -/
  | unrecognizedOpcode (opcode : Word) (table : OpcodeTable)
  /-- Nothing answers at the port. -/
  | illegalPort (port : Word)
  /-- The program, or whoever drives the machine, asked for something that has
  no meaning. -/
  | misuse (what : String)
  /-- The line names no address to break at. -/
  | invalidBreakpoint (line : String)
  /-- A value was popped from an empty stack. -/
  | stackUnderflow
  deriving DecidableEq, Repr

open Text in
def Fault.message : Fault → String
  | .unrecognizedOpcode opcode table =>
    s!"Unrecognized opcode {hex 2 opcode.toNat} in the {table.name} table"
  | .illegalPort port => s!"Illegal port {hex 2 port.toNat}"
  | .misuse what => s!"Programming error: {what}"
  | .invalidBreakpoint line => s!"Unable to parse breakpoint from line {quote line}"
  | .stackUnderflow => "Pop from an empty stack"

end Retrocore
