import Retrocore.Disassembly

/-!
# Journals

A run is narrated in remarks, each of a level and about a topic. A journal keeps
the remarks up to the level that its reader asked for, as lines of text.
-/

namespace Retrocore.Narration

/-- How much a reader wants to hear, from faults alone to every single
instruction. -/
inductive Level where
  | error | warn | info | debug | trace
  deriving DecidableEq, Repr

namespace Level

def all : List Level := [error, warn, info, debug, trace]

/-- The place of a level: what is told at one level is told at all levels above
it. -/
def rank : Level → Nat
  | error => 0
  | warn => 1
  | info => 2
  | debug => 3
  | trace => 4

/-- The word by which a level is chosen. -/
def word : Level → String
  | error => "error"
  | warn => "warn"
  | info => "info"
  | debug => "debug"
  | trace => "trace"

def ofWord? (s : String) : Option Level := all.find? (·.word == s)

/-- Whether a reader who asked for `limit` is told of something of the given
level. -/
def includes (limit level : Level) : Bool := level.rank ≤ limit.rank

end Level

/-- What a remark is about. -/
inductive Topic where
  | emulator
  | disassembler
  | driver
  | debugger
  | machine (isa : Isa)
  | ports
  | memory
  | cpm
  deriving DecidableEq, Repr

/-- The path by which readers filter remarks. -/
def Topic.path : Topic → String
  | emulator => "emu_cli"
  | disassembler => "disassembler"
  | driver => "emu_lib::driver"
  | debugger => "emu_lib::debugger"
  | machine isa => s!"emu_lib::{isa.word}"
  | ports => "emu_lib::io"
  | memory => "common::mem"
  | cpm => "emu_lib::io::cpm"

structure Remark where
  level : Level
  topic : Topic
  text : String
  deriving DecidableEq, Repr

/-- A remark as a line of a journal. -/
def Remark.line (r : Remark) : String := s!"{r.level.word.toUpper} {r.topic.path}: {r.text}"

structure Journal where
  limit : Level
  lines : Array String := #[]

namespace Journal

/-- Takes a remark if the reader asked for its level. -/
def note (j : Journal) (r : Remark) : Journal :=
  if j.limit.includes r.level then { j with lines := j.lines.push r.line } else j

/-- Takes a line whatever the reader asked for. -/
def write (j : Journal) (line : String) : Journal := { j with lines := j.lines.push line }

end Journal

end Retrocore.Narration
