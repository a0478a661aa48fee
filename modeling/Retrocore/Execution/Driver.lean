import Retrocore.Core
import Retrocore.Execution.Debugger
import Retrocore.Execution.State
import Retrocore.Monitor

/-!
# The execution driver

A driver runs a core in ticks. A tick is a budget of cycles; when it is spent,
an interrupt may be requested. Breakpoints, pauses and the debugger's single
steps may cut a tick into pieces, but the next piece goes on where the last one
ended. What paces the ticks, where requests come from, and what follows the run
are collaborators of any type.
-/

namespace Retrocore.Execution

/-- What a user asks for at one poll. -/
structure Request where
  quit : Bool := false
  togglePause : Bool := false
  stepInstruction : Bool := false
  stepCycle : Bool := false
  continueRunning : Bool := false
  deriving DecidableEq, Repr

/-- What decides when the next tick is due. -/
class Governor (γ : Type) where
  isDue : γ → Bool × γ

/-- The governor for which every tick is due at once. -/
instance : Governor Unit := ⟨fun _ => (true, ())⟩

/-- Where requests come from. While stepping, only the debugger's requests
matter. -/
class Input (ι : Type) where
  poll : ι → (debugOnly : Bool) → ι × Except Fault Request

/-- The input that never asks for anything. -/
instance : Input Unit := ⟨fun _ _ => ((), .ok {})⟩

/-- What a monitor of a driver hears. -/
inductive Happening where
  /-- The core was asked whether it can run, and said so or not. -/
  | tested (able : Bool)
  /-- The core is about to make a step. -/
  | stepping
  /-- The core has made a step, or failed to for the given fault. -/
  | stepped (fault? : Option Fault)
  /-- The cycles of the tick count from zero again. -/
  | tickEnded
  /-- An interrupt has been requested. -/
  | interrupted (byte : Byte)
  | moved (before after : State)
  | breakpointHit
  /-- A request of the debugger came while running. -/
  | ignoredRequest
  /-- The screen is due in the given state. -/
  | screen (state : State)
  /-- The debugger's view is due. -/
  | debugScreen
  deriving DecidableEq, Repr

structure Config where
  /-- The budget of a tick; the default is that of 2 MHz at 60 ticks a
  second. -/
  cyclesPerTick : Nat := 33333
  /-- Requested at the end of each tick, if the core lets interrupts through. -/
  interruptByte : Option Byte := none
  /-- Whether to stop once the core can run no further. -/
  runOnce : Bool := true
  debugMode : Bool := false
  deriving DecidableEq, Repr

/-- A core with what works on it, and how far it has come in its tick. The counts
of cycles are natural numbers, as the costs of steps are (`Ran`), and so is the
budget: where they are kept in 64 bits, no sum of them is taken to reach 2 ^ 64. -/
structure Driver (κ γ ι ω : Type) where
  core : κ
  governor : γ
  input : ι
  monitor : ω
  debugger : Debugger
  config : Config
  state : State
  /-- Spent so far of the current tick. -/
  tickCycles : Nat
  totalCycles : Nat
  /-- Set on leaving the debugger: the instruction under the breakpoint is to
  run now. -/
  passBreakpoint : Bool

namespace Driver

variable {κ γ ι ω : Type}

def new (core : κ) (governor : γ) (input : ι) (monitor : ω) (config : Config) :
    Driver κ γ ι ω where
  core
  governor
  input
  monitor
  debugger := { debugMode := config.debugMode }
  config
  state := .running
  tickCycles := 0
  totalCycles := 0
  passBreakpoint := false

variable [Core κ] [Governor γ] [Input ι] [Monitor ω κ Happening]

/-- Tells the monitor. -/
def tell (d : Driver κ γ ι ω) (what : Happening) : Driver κ γ ι ω :=
  { d with monitor := Monitor.hear d.monitor d.core what }

/-- Moves to the state that an event leads to; an event without meaning changes
nothing. -/
def transition (d : Driver κ γ ι ω) (e : Event) : Driver κ γ ι ω × Except Fault Unit :=
  match d.state.on e with
  | none => (d, .error (.misuse s!"no transition from {d.state.name} on {e.name}"))
  | some next =>
    let d := d.tell (.moved d.state next)
    let leaving := d.state = .stepping ∧ next ≠ .stopped
    ({ d with state := next, passBreakpoint := d.passBreakpoint || leaving }, .ok ())

/-- Asks the core whether it can run. -/
def testCore (d : Driver κ γ ι ω) : Bool × Driver κ γ ι ω :=
  let able := Core.canRun d.core
  (able, d.tell (.tested able))

/-- Lets the core make a step, and counts its cost. -/
def stepCore (d : Driver κ γ ι ω) : Driver κ γ ι ω × Except Fault Unit :=
  let d := d.tell .stepping
  let ran := Core.step d.core
  let d := { d with core := ran.state }.tell (.stepped ran.fault?)
  match ran.result with
  | .error fault => (d, .error fault)
  | .ok n =>
    ({ d with tickCycles := d.tickCycles + n, totalCycles := d.totalCycles + n }, .ok ())

/-- Ends the tick with the interrupt that is due then. -/
def endTick (d : Driver κ γ ι ω) : Driver κ γ ι ω :=
  let d := { d with tickCycles := 0 }.tell .tickEnded
  match d.config.interruptByte with
  | none => d
  | some byte =>
    if Core.interruptsEnabled d.core then
      { d with core := Core.interrupt d.core byte }.tell (.interrupted byte)
    else d

/-- Whether the tick's budget is spent. -/
def spent (d : Driver κ γ ι ω) : Bool := d.config.cyclesPerTick ≤ d.tickCycles

/-- Runs what is left of the tick, for at most the given number of steps. False
if the run ended before the tick did, because of a breakpoint or because the
core can run no further. -/
def runSteps : Nat → Driver κ γ ι ω → Driver κ γ ι ω × Except Fault Bool
  | 0, d => if d.spent then (d.endTick, .ok true) else (d, .ok false)
  | steps + 1, d =>
    if d.spent then (d.endTick, .ok true)
    else
      match d.testCore with
      | (false, d) =>
        if d.config.runOnce then
          let (d, result) := d.transition .stop
          (d, result.map fun _ => false)
        else (d.endTick, .ok true)
      | (true, d) =>
        let check := !d.passBreakpoint
        let d := { d with passBreakpoint := false }
        if check && d.debugger.shouldBreak (Core.pc d.core) then
          let (d, result) := (d.tell .breakpointHit).transition .breakpointHit
          (d, result.map fun _ => false)
        else
          match d.stepCore with
          | (d, .error fault) => (d, .error fault)
          | (d, .ok ()) => runSteps steps d

/-- Polls the input. -/
def poll (d : Driver κ γ ι ω) (debugOnly : Bool) : Driver κ γ ι ω × Except Fault Request :=
  let (input, result) := Input.poll d.input debugOnly
  ({ d with input }, result)

/-- Asks the governor whether the next tick is due. -/
def isDue (d : Driver κ γ ι ω) : Bool × Driver κ γ ι ω :=
  let (due, governor) := Governor.isDue d.governor
  (due, { d with governor })

/-- A tick of a running machine: the rest of the budget, then a poll. -/
def performRunning (limit : Nat) (d : Driver κ γ ι ω) : Driver κ γ ι ω × Except Fault Unit :=
  match runSteps limit d with
  | (d, .error fault) => (d, .error fault)
  | (d, .ok false) => (d, .ok ())
  | (d, .ok true) =>
    match d.poll false with
    | (d, .error fault) => (d, .error fault)
    | (d, .ok request) =>
      if request.quit then d.transition .stop
      else if request.togglePause then d.transition .togglePause
      else
        let d :=
          if request.stepInstruction || request.stepCycle || request.continueRunning then
            d.tell .ignoredRequest
          else d
        (d.tell (.screen d.state), .ok ())

/-- A tick of a paused machine: a poll. -/
def performPaused (d : Driver κ γ ι ω) : Driver κ γ ι ω × Except Fault Unit :=
  match d.poll false with
  | (d, .error fault) => (d, .error fault)
  | (d, .ok request) =>
    if request.quit then d.transition .stop
    else
      let (d, result) := if request.togglePause then d.transition .togglePause else (d, .ok ())
      match result with
      | .error fault => (d, .error fault)
      | .ok () => (d.tell (.screen d.state), .ok ())

/-- Runs out the tick without stopping at breakpoints, for at most the given
number of steps. -/
def finishSteps : Nat → Driver κ γ ι ω → Driver κ γ ι ω × Except Fault Unit
  | 0, d => (if d.spent then d.endTick else d, .ok ())
  | steps + 1, d =>
    if d.spent then (d.endTick, .ok ())
    else
      match d.testCore with
      | (false, d) => (d.endTick, .ok ())
      | (true, d) =>
        match d.stepCore with
        | (d, .error fault) => (d, .error fault)
        | (d, .ok ()) => finishSteps steps d

/-- Makes a single step, and ends the tick if that spends its budget. -/
def singleStep (d : Driver κ γ ι ω) : Driver κ γ ι ω × Except Fault Unit :=
  let (able, d) := d.testCore
  let (d, result) := if able then d.stepCore else (d, .ok ())
  match result with
  | .error fault => (d, .error fault)
  | .ok () => (if d.spent then d.endTick else d, .ok ())

/-- One round of the debugger: a poll and what it asks for. -/
def performStepping (limit : Nat) (d : Driver κ γ ι ω) : Driver κ γ ι ω × Except Fault Unit :=
  match d.poll true with
  | (d, .error fault) => (d, .error fault)
  | (d, .ok request) =>
    if request.quit then d.transition .stop
    else if request.togglePause then d.transition .togglePause
    else if request.continueRunning then d.transition .continue
    else
      let (d, result) :=
        if request.stepInstruction then d.singleStep
        else if request.stepCycle then finishSteps limit d
        else (d, .ok ())
      match result with
      | .error fault => (d, .error fault)
      | .ok () => (d.tell .debugScreen, .ok ())

/-- The work of one tick in the current state, cut off after the given number of
steps. The debugger is not paced. -/
def performWithin (limit : Nat) (d : Driver κ γ ι ω) : Driver κ γ ι ω × Except Fault Unit :=
  match d.state with
  | .running =>
    let (due, d) := d.isDue
    if due then d.performRunning limit else (d, .ok ())
  | .paused =>
    let (due, d) := d.isDue
    if due then d.performPaused else (d, .ok ())
  | .stepping => d.performStepping limit
  | .stopped => (d, .ok ())

/-- The work of one tick in the current state. As every step costs at least one
cycle, the tick is over after as many steps as cycles are left. -/
def perform (d : Driver κ γ ι ω) : Driver κ γ ι ω × Except Fault Unit :=
  d.performWithin (d.config.cyclesPerTick - d.tickCycles)

/-- Performs ticks until the machine stops, a fault ends the run, or the given
number is done. -/
def performMany : Nat → Driver κ γ ι ω → Driver κ γ ι ω × Except Fault Unit
  | 0, d => (d, .ok ())
  | ticks + 1, d =>
    if d.state.isExit then (d, .ok ())
    else
      match d.perform with
      | (d, .error fault) => (d, .error fault)
      | (d, .ok ()) => performMany ticks d

/-- Starts the core and performs ticks until the machine stops, but at most the
given number. -/
def run (d : Driver κ γ ι ω) (ticks : Nat) : Driver κ γ ι ω × Except Fault Unit :=
  if d.state.isExit then (d, .error (.misuse "driver has already stopped"))
  else performMany ticks { d with core := Core.start d.core }

end Driver

end Retrocore.Execution
