/-!
# States of a driven machine

A driven machine runs, is paused, is stepped through by a debugger, or has
stopped for good. `State.on` is the table of moves between the four.
-/

namespace Retrocore.Execution

inductive State where
  | running | paused | stepping | stopped
  deriving DecidableEq, Repr

inductive Event where
  | togglePause | stop | continue | breakpointHit
  deriving DecidableEq, Repr

def Event.name : Event → String
  | togglePause => "TogglePause"
  | stop => "Stop"
  | .continue => "Continue"
  | breakpointHit => "BreakpointHit"

def Event.ofName? (s : String) : Option Event :=
  [togglePause, stop, .continue, breakpointHit].find? (·.name == s)

namespace State

def all : List State := [running, paused, stepping, stopped]

def name : State → String
  | running => "running"
  | paused => "paused"
  | stepping => "stepping"
  | stopped => "stopped"

/-- Where an event leads, if it means anything in the state. -/
def on : State → Event → Option State
  | running, .togglePause => some paused
  | running, .breakpointHit => some stepping
  | running, .stop => some stopped
  | paused, .togglePause => some running
  | paused, .stop => some stopped
  | stepping, .continue => some running
  | stepping, .togglePause => some paused
  | stepping, .stop => some stopped
  | _, _ => none

/-- Whether the state is the last. -/
def isExit (s : State) : Bool := s == stopped

/-- A machine that has been stopped stays stopped. -/
theorem on_stopped (e : Event) : stopped.on e = none := by cases e <;> rfl

end State

end Retrocore.Execution
