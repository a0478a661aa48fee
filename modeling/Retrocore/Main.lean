import Retrocore.CommandLine.Disassembler
import Retrocore.CommandLine.Emulator

/-!
# The command line

`disassemble FILE --isa ISA` prints a file as instructions, and `emulate FILE
--isa ISA` runs it. What is reported of a run goes to the error stream, up to
the level named by the variable `RETROCORE_LOG`.
-/

namespace Retrocore.CommandLine

/-- All that is left of a stream. -/
partial def drain (input : IO.FS.Stream) (before : List Byte) : IO (List Byte) := do
  let chunk ← input.read 65536
  if chunk.isEmpty then return before else drain input (before ++ chunk.toList)

/-- Why the system does not let a file be read. -/
def readFault : IO.Error → ReadFault
  | .noFileOrDirectory .. => .missing
  | .inappropriateType _ 20 _ => .notFolder
  | .inappropriateType _ 21 _ => .folder
  | .invalidArgument _ 36 _ => .longName
  | e => .other (toString e)

def readFile (path : String) : IO (Except ReadFault (List Byte)) := do
  try
    return .ok (← IO.FS.readBinFile path).toList
  catch e => return .error (readFault e)

/-- The level that the reader asks for. -/
def limit : IO Narration.Level := do
  return ((← IO.getEnv "RETROCORE_LOG").bind Narration.Level.ofWord?).getD .error

/-- Writes out what a run has left. -/
def Outcome.write (o : Outcome) : IO UInt32 := do
  let out ← IO.getStdout
  out.write (ByteArray.mk o.printed.toArray)
  out.flush
  for line in o.errors do IO.eprintln line
  return UInt32.ofNat o.exitCode

def disassemble (arguments : List String) : IO UInt32 := do
  match Disassembler.Order.ofArguments arguments with
  | .error halt => (halt.outcome Disassembler.program).write
  | .ok order => (order.run (← readFile order.path)).write

/-- For how many ticks or steps a run is waited for. -/
def patience : Nat := 1000000000000000

def emulate (arguments : List String) : IO UInt32 := do
  match Emulator.Order.ofArguments arguments with
  | .error halt => (halt.outcome Emulator.program).write
  | .ok order =>
    let file ← readFile order.path
    let reads := !order.settings.interactive && !order.settings.cpm
    let typed ← if reads then drain (← IO.getStdin) [] else pure []
    match order.run file typed (← limit) patience with
    | some outcome => outcome.write
    | none =>
      IO.eprintln "the run has not come to an end"
      return 1

end Retrocore.CommandLine

open Retrocore.CommandLine in
def main (arguments : List String) : IO UInt32 := do
  match arguments with
  | "disassemble" :: rest => disassemble rest
  | "emulate" :: rest => emulate rest
  | _ =>
    IO.eprintln "usage: retrocore (disassemble | emulate) FILE --isa ISA"
    return 2
