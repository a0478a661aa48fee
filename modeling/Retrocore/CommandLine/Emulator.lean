import Retrocore.CommandLine.Outcome
import Retrocore.Narration.Reporter

/-!
# The emulator

The program that runs a file on one of the machines, with a console on the
standard streams, or as a CP/M program. The standard input is known from the
start; what is printed and reported is given back when the run is over.
-/

namespace Retrocore.CommandLine.Emulator

open Narration

/-! ## Settings -/

structure Settings where
  isa : Option Isa := none
  cpm : Bool := false
  /-- Where the file is loaded. -/
  load : Word := 0
  /-- Where execution starts, if not where the file is loaded. -/
  start : Option Word := none
  cyclesPerTick : Nat := 33333
  interrupt : Option Byte := none
  /-- Lines that begin with an address to break at. -/
  breakpoints : List String := []
  /-- Whether breakpoints count. -/
  debug : Bool := false
  /-- Whether a terminal is expected. -/
  interactive : Bool := false

def program : Program Settings where
  title := "8-bit CPU Emulator"
  name := Topic.emulator.path
  purpose := "Binary to execute"
  parameters := [
    .isa fun s isa => { s with isa },
    { name := "cpm"
      effect := .switch fun s => { s with cpm := true }
      about := "Run as a CP/M program (8080 and Z80 only)" },
    .address "load" "LOAD" "Address at which to load the binary [default: 0]"
      fun s load => { s with load },
    .address "start" "START" "Address at which to start executing; defaults to the load address"
      fun s start => { s with start },
    .count "cycles-per-tick" "CYCLES_PER_TICK" "Clock cycles run per tick [default: 33333]"
      fun s n => { s with cyclesPerTick := n },
    .byte "interrupt" "INTERRUPT"
      "Byte supplied with the interrupt requested at the end of each tick"
      fun s interrupt => { s with interrupt },
    { name := "break"
      effect := .value "BREAKPOINTS" fun s line =>
        .ok { s with breakpoints := s.breakpoints ++ [line] }
      about := "Breakpoint address, or a line copied from the disassembler"
      repeatable := true },
    { name := "debug"
      effect := .switch fun s => { s with debug := true }
      about := "Stop at breakpoints" },
    { name := "interactive"
      effect := .switch fun s => { s with interactive := true }
      about := "Take debugger keys from the terminal: q quits, p pauses, s steps an " ++
        "instruction, t runs out the tick, c continues" }]

/-- The Little Man Computer has addresses for its mailboxes only. -/
def Settings.outside? (s : Settings) (isa : Isa) : Option Rejection :=
  let past (a : Word) : Bool := isa = .lmc && Lmc.mailboxes ≤ a.toNat
  if past s.load then some (.outside "--load" s.load)
  else (s.start.filter past).map (.outside "--start")

/-- A file to be run, on which machine and how. -/
structure Order where
  path : String
  isa : Isa
  settings : Settings

/-- Reads the command line. -/
def Order.ofArguments (arguments : List String) : Except Halt Order :=
  match readArguments program.parameters {} arguments with
  | .error halt => .error halt
  | .ok (some path, settings) =>
    match settings.isa with
    | none => reject .incomplete
    | some isa =>
      match settings.outside? isa with
      | some r => reject r
      | none => .ok { path, isa, settings }
  | .ok (none, _) => reject .incomplete

/-- The breakpoints, or what is wrong with the first line that names none. -/
def Settings.readBreakpoints (s : Settings) : Except Fault (List Breakpoint) :=
  s.breakpoints.mapM (Breakpoint.ofLine 16)

/-- The debugger with the breakpoints set up. -/
def Settings.debugger (s : Settings) : Except Fault Debugger :=
  s.readBreakpoints.map fun breakpoints =>
    breakpoints.foldl Debugger.add { debugMode := s.debug }

/-! ## Driving a machine -/

/-- Nobody is there to press keys. A breakpoint shows the registers once, after
the instruction at the breakpoint, and then the run goes on. -/
structure Unattended where
  /-- Whether the registers have been shown since the run was last broken
  off. -/
  shown : Bool := false
  deriving DecidableEq, Repr

instance : Execution.Input Unattended where
  poll u debugOnly :=
    if !debugOnly then (u, .ok {})
    else if u.shown then ({ shown := false }, .ok { continueRunning := true })
    else ({ shown := true }, .ok { stepInstruction := true })

/-- How a run has ended, and what was reported of it. -/
def finish (r : Reporter) (printed : List Byte) (result : Except Fault Unit) : Outcome :=
  match result with
  | .ok () => { exitCode := 0, printed, errors := r.journal.lines.toList }
  | .error fault =>
    let r := r.note .error .emulator fault.message
    { exitCode := 1, printed, errors := r.journal.lines.toList }

/-- Drives a machine until it stops, or for as many ticks as there is patience
for; a run that goes on longer leaves nothing. -/
def drive {κ ι : Type} [Core κ] [Narrated κ] [Execution.Input ι] (s : Settings) (limit : Level)
    (patience : Nat) (core : κ) (input : ι) (printed : κ → List Byte) : Option Outcome :=
  let reporter : Reporter := { journal := { limit } }
  match s.debugger with
  | .error fault => some (finish reporter [] (.error fault))
  | .ok debugger =>
    let driver := Execution.Driver.new core () input reporter {
      cyclesPerTick := s.cyclesPerTick
      interruptByte := s.interrupt
      debugMode := s.debug }
    let (driver, result) := { driver with debugger }.run patience
    match result with
    | .error fault => some (finish driver.monitor (printed driver.core) (.error fault))
    | .ok () =>
      if driver.state.isExit then
        let address := Text.hex16 (Core.pc driver.core)
        let reporter := driver.monitor.note .info .emulator
          s!"Stopped after {driver.totalCycles} cycles at {address}"
        some (finish reporter (printed driver.core) (.ok ()))
      else none

/-! ## Machines -/

/-- The port at which the 8080 and the Z80 find the console. -/
def dataPort : Byte := 1

/-- The port by which the 8080 and the Z80 learn whether a key waits. -/
def statusPort : Byte := 0

/-- A memory with a file in it. Its writes are noted if they are going to be
reported. -/
def memoryOf {κ : Type} [Inhabited κ] (size : Nat) (cells : List κ) (start : Word) (limit : Level) :
    Memory WriteTap κ :=
  let m := (Memory.zeros size).load cells start
  if limit.includes .trace then m.attach {} else m

/-- All that was printed on a machine's terminals, in the order of the
terminals. -/
def printedBy {ω : Type} (terminals : List (Terminal ω)) : List Byte :=
  terminals.flatMap fun t => t.takePrinted.1

/-- Runs a machine with somebody at the terminal or nobody, as the settings ask.
Unattended, the bytes printed are passed on as they are. Interactive, no key is
pressed, and a carriage return goes before each line feed, since a screen in raw
mode does not return by itself. -/
def runOnTerminal {κ : Type} [Core κ] [Narrated κ] (s : Settings) (limit : Level) (patience : Nat)
    (core : κ) (printed : κ → List Byte) : Option Outcome :=
  if s.interactive then
    let returned (b : Byte) : List Byte := if b = 10 then [13, b] else [b]
    drive s limit patience core () fun core => (printed core).flatMap returned
  else drive s limit patience core ({} : Unattended) printed

/-- Runs a file on a machine with a console. -/
def runMachine (o : Order) (bytes typed : List Byte) (limit : Level) (patience : Nat) :
    Option Outcome :=
  let s := o.settings
  let start := s.start.getD s.load
  let console : Console := { typed := if s.interactive then [] else typed }
  let terminal : Terminal PortWiring := ⟨⟨dataPort, some statusPort⟩, console⟩
  match o.isa with
  | .i8080 =>
    let m := I8080.Machine.new (memoryOf I8080.memorySize bytes s.load limit) start
    runOnTerminal s limit patience (m.connect terminal) fun m => printedBy m.ports.observers
  | .z80 =>
    let m := Z80.Machine.new (memoryOf Z80.memorySize bytes s.load limit) start
    runOnTerminal s limit patience (m.connect terminal) fun m => printedBy m.ports.observers
  | .lr35902 =>
    let m := Lr35902.Machine.new (memoryOf Lr35902.memorySize bytes s.load limit)
    runOnTerminal s limit patience (s.start.elim m m.jump) fun _ => []
  | .lmc =>
    let memory := memoryOf Lmc.mailboxes (wordsOfBytes bytes) s.load limit
    let m := Lmc.Machine.new memory start.toUInt8
    let terminal : Terminal NumberDesk := ⟨{}, console⟩
    runOnTerminal s limit patience (m.connect terminal) fun m => printedBy m.observers
  | .synacor =>
    let memory := memoryOf Synacor.memorySize (wordsOfBytes bytes) s.load limit
    let m := Synacor.Machine.new memory start
    let terminal : Terminal PortWiring := ⟨⟨Synacor.consolePort, none⟩, console⟩
    runOnTerminal s limit patience (m.connect terminal) fun m => printedBy m.observers

/-- Runs a CP/M program, for as many steps as there is patience for. -/
def runSession {κ : Type} [Core κ] [Cpm.Host κ] [Narrated κ] (s : Cpm.Session κ Reporter)
    (patience : Nat) : Option Outcome :=
  let (s, result) := s.run patience
  result.map (finish s.monitor s.console.takePrinted.1)

/-- Runs a file as a CP/M program, which only two of the machines can do. -/
def runCpm (o : Order) (bytes : List Byte) (limit : Level) (patience : Nat) : Option Outcome :=
  let reporter : Reporter := { journal := { limit } }
  let tap : Option WriteTap := if limit.includes .trace then some {} else none
  match o.isa with
  | .i8080 => runSession (Cpm.Session.i8080 bytes tap reporter) patience
  | .z80 => runSession (Cpm.Session.z80 bytes tap reporter) patience
  | isa =>
    let r := reporter.note .error .emulator s!"CP/M needs an 8080 or a Z80, not {isa.name}"
    some { exitCode := 2, errors := r.journal.lines.toList }

/-- Runs the file, or says why it cannot be read. -/
def Order.run (o : Order) (file : Except ReadFault (List Byte)) (typed : List Byte)
    (limit : Level) (patience : Nat) : Option Outcome :=
  match file with
  | .error fault => some (.unreadable .emulator o.path fault)
  | .ok bytes =>
    if o.settings.cpm then runCpm o bytes limit patience
    else runMachine o bytes typed limit patience

/-- The whole program, among the files that are there. -/
def respond (arguments : List String) (files : Whereabouts) (typed : List Byte)
    (limit : Level) (patience : Nat) : Option Outcome :=
  match Order.ofArguments arguments with
  | .error halt => some (halt.outcome program)
  | .ok order => order.run (files.read order.path) typed limit patience

end Retrocore.CommandLine.Emulator
