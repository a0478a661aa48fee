import Retrocore.CommandLine.Outcome

/-!
# The disassembler

The program that prints a file as instructions.
-/

namespace Retrocore.CommandLine.Disassembler

structure Settings where
  isa : Option Isa := none
  /-- The address of the first byte or word of the file. -/
  origin : Word := 0

def program : Program Settings where
  title := "8-bit CPU Disassembler"
  name := Narration.Topic.disassembler.path
  purpose := "Binary to disassemble"
  parameters := [
    .isa fun s isa => { s with isa },
    .address "origin" "ORIGIN" "Address of the first byte (or word) of the binary [default: 0]"
      fun s origin => { s with origin }]

structure Order where
  path : String
  isa : Isa
  origin : Word
  deriving DecidableEq, Repr

/-- Reads the command line. -/
def Order.ofArguments (arguments : List String) : Except Halt Order :=
  match readArguments program.parameters {} arguments with
  | .error halt => .error halt
  | .ok (some path, { isa := some isa, origin }) => .ok { path, isa, origin }
  | .ok _ => reject .incomplete

/-- Prints the file, or says why it cannot be read. -/
def Order.run (o : Order) (file : Except ReadFault (List Byte)) : Outcome :=
  match file with
  | .error fault => .unreadable .disassembler o.path fault
  | .ok bytes =>
    let lines := listing (disassembleFile o.isa bytes o.origin)
    { exitCode := 0, printed := lines.flatMap fun line => Text.utf8 s!"{line}\n" }

/-- The whole program, among the files that are there. -/
def respond (arguments : List String) (files : Whereabouts) : Outcome :=
  match Order.ofArguments arguments with
  | .error halt => halt.outcome program
  | .ok order => order.run (files.read order.path)

end Retrocore.CommandLine.Disassembler
