import Retrocore.I8080.Instruction
import Retrocore.Z80.Decode
import Retrocore.Lr35902.Instruction
import Retrocore.Lmc.Instruction
import Retrocore.Synacor.Instruction

/-!
# Disassembly

A file is walked from its first cell to its last, one line for each instruction,
and one for each cell that starts no instruction. The decoders are those that
the processors run on. `listing` is the disassembly as it is printed, with long
runs of the same text cut down to their ends: first the runs are looked for, then
the lines are printed one after the other.
-/

namespace Retrocore

/-- The machines. -/
inductive Isa where
  | i8080 | z80 | lr35902 | lmc | synacor
  deriving DecidableEq, Repr

namespace Isa

/-- The word by which a machine is chosen. -/
def word : Isa → String
  | i8080 => "i8080"
  | z80 => "z80"
  | lr35902 => "lr35902"
  | lmc => "lmc"
  | synacor => "synacor"

/-- The machine's proper name. -/
def name : Isa → String
  | i8080 => "I8080"
  | z80 => "Z80"
  | lr35902 => "Lr35902"
  | lmc => "Lmc"
  | synacor => "Synacor"

def all : List Isa := [i8080, z80, lr35902, lmc, synacor]

def ofWord? (s : String) : Option Isa := all.find? (·.word == s)

end Isa

/-- What one machine's disassembly looks like. -/
structure Dialect (κ : Type) where
  /-- The text of the instruction at an address, and how many cells it takes. -/
  decode : Stream κ → Word → Option (String × Nat)
  /-- The text of a cell that starts no instruction. -/
  unknown : κ → String
  /-- Whether addresses are decimal. -/
  decimal : Bool

namespace Dialect

/-- The text and length of an instruction, if there is one. -/
def ofDecoded {ι : Type} (text : ι → String) (d : Except Undecodable (Decoded ι)) :
    Option (String × Nat) :=
  match d with
  | .ok d => some (text d.instruction, d.length)
  | .error _ => none

def unknownByte (v : Byte) : String := s!"db {Text.hex8 v}"

def i8080 : Dialect Byte where
  decode s _ := ofDecoded I8080.Instruction.text (.ok (I8080.decode s))
  unknown := unknownByte
  decimal := false

def z80 : Dialect Byte where
  decode s address := ofDecoded (Z80.Instruction.textAt (some address)) (Z80.decode s)
  unknown := unknownByte
  decimal := false

def lr35902 : Dialect Byte where
  decode s address := ofDecoded (Lr35902.Instruction.textAt (some address)) (Lr35902.decode s)
  unknown := unknownByte
  decimal := false

def lmc : Dialect Word where
  decode s _ := ofDecoded Lmc.Instruction.text (Lmc.decode s)
  unknown v := s!"dat {v.toNat}"
  decimal := true

def synacor : Dialect Word where
  decode s _ := ofDecoded Synacor.Instruction.text (Synacor.decode s)
  unknown v := s!"dw {v.toNat}"
  decimal := false

end Dialect

/-- A line of a disassembly. -/
structure Line where
  address : Word
  text : String
  /-- Whether the address is shown in decimal. -/
  decimal : Bool
  deriving DecidableEq, Repr

/-- The address, a tab, and the text: the form in which breakpoints are read. -/
def Line.render (l : Line) : String :=
  let address := if l.decimal then Text.decimal 2 l.address.toNat
    else Text.bareHex 4 l.address.toNat
  s!"{address}\t{l.text}"

namespace Dialect

variable {κ : Type} [Inhabited κ]

/-- The text of what stands at a position, and how many cells it takes. -/
def textAt (d : Dialect κ) (cells : Array κ) (origin : Word) (pos : Nat) : String × Nat :=
  match d.decode (.ofArray cells pos) (origin + UInt16.ofNat pos) with
  | some (text, length) => (text, length)
  | none => (d.unknown (cells.getD pos default), 1)

/-- The lines from a position on. Every line takes at least one cell. -/
def walk (d : Dialect κ) (cells : Array κ) (origin : Word) (pos : Nat) : List Line :=
  if pos < cells.size then
    let (text, length) := d.textAt cells origin pos
    ⟨origin + UInt16.ofNat pos, text, d.decimal⟩ :: d.walk cells origin (pos + max 1 length)
  else []
  termination_by cells.size - pos

/-- The lines of a row of cells whose first has the address `origin`. -/
def disassemble (d : Dialect κ) (cells : Array κ) (origin : Word) : List Line :=
  d.walk cells origin 0

end Dialect

/-- The lines of a file. The machines that work on words store them low byte
first. -/
def disassembleFile (isa : Isa) (bytes : List Byte) (origin : Word) : List Line :=
  match isa with
  | .i8080 => Dialect.i8080.disassemble bytes.toArray origin
  | .z80 => Dialect.z80.disassemble bytes.toArray origin
  | .lr35902 => Dialect.lr35902.disassemble bytes.toArray origin
  | .lmc => Dialect.lmc.disassemble (wordsOfBytes bytes).toArray origin
  | .synacor => Dialect.synacor.disassemble (wordsOfBytes bytes).toArray origin

/-! ## Printing -/

/-- The longest run of equal texts that is printed in full. -/
def longestFullRun : Nat := 8

/-- A run of equal texts that is too long to be printed in full: the index of its
first line, and that behind its last. -/
structure LongRun (lines : Array Line) where
  first : Nat
  past : Nat
  long : longestFullRun < past - first
  inside : past ≤ lines.size

def LongRun.last {lines : Array Line} (r : LongRun lines) : Line :=
  have : r.past - 1 < lines.size := by
    have := r.long
    have := r.inside
    omega
  lines[r.past - 1]

/-- The long runs that end at an index or later. The run that the line before the
index belongs to starts at `first`. A run ends where the text changes, and behind
the last line. -/
def longRunsFrom (lines : Array Line) (first i : Nat) : List (LongRun lines) :=
  if hi : i ≤ lines.size then
    if i = lines.size ∨ lines[i]?.map Line.text ≠ lines[first]?.map Line.text then
      if hlong : longestFullRun < i - first then
        ⟨first, i, hlong, hi⟩ :: longRunsFrom lines i (i + 1)
      else longRunsFrom lines i (i + 1)
    else longRunsFrom lines first (i + 1)
  else []
  termination_by lines.size + 1 - i

/-- The long runs among some lines, in order. -/
def longRuns (lines : Array Line) : List (LongRun lines) := longRunsFrom lines 0 1

/-- A printer between two rounds: the index of the line that is next, and the
long runs that it has not come to. -/
structure Printer (lines : Array Line) where
  next : Nat
  ahead : List (LongRun lines)

namespace Printer

variable {lines : Array Line}

/-- What is printed in one round, and the printer after it. Where a long run
starts, its inside is passed over. -/
def round (p : Printer lines) (h : p.next < lines.size) : List String × Printer lines :=
  let line := lines[p.next].render
  match p.ahead with
  | [] => ([line], ⟨p.next + 1, []⟩)
  | run :: later =>
    if run.first = p.next then ([line, "...", run.last.render], ⟨run.past, later⟩)
    else ([line], ⟨p.next + 1, run :: later⟩)

/-- Every round moves on: a run ends behind the line that it starts with. -/
theorem next_lt_round (p : Printer lines) (h : p.next < lines.size) :
    p.next < (p.round h).2.next := by
  unfold round
  split
  next => exact Nat.lt_succ_self _
  next run later _ =>
    split
    next hfirst =>
      have := run.long
      show p.next < run.past
      omega
    next => exact Nat.lt_succ_self _

/-- All that is printed from a state of the printer on. -/
def print (p : Printer lines) : List String :=
  if h : p.next < lines.size then
    let after := p.round h
    after.1 ++ after.2.print
  else []
  termination_by lines.size - p.next
  decreasing_by
    have := p.next_lt_round h
    omega

end Printer

/-- A disassembly as it is printed. -/
def listing (lines : List Line) : List String :=
  let lines := lines.toArray
  (Printer.mk 0 (longRuns lines)).print

end Retrocore
