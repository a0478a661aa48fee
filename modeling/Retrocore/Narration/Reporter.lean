import Retrocore.Cpm
import Retrocore.Execution.Driver
import Retrocore.Narration.Machines

/-!
# Reporters

A reporter is a monitor that keeps a journal. It follows a driven machine or a
CP/M session, and shows the registers at breakpoints.
-/

namespace Retrocore.Narration

structure Reporter where
  journal : Journal
  /-- How many writes to the memory have been reported. -/
  reported : Nat := 0
  /-- The state of the machine that was last on the screen. -/
  shown : Option Execution.State := none

namespace Reporter

def note (r : Reporter) (level : Level) (topic : Topic) (text : String) : Reporter :=
  { r with journal := r.journal.note ⟨level, topic, text⟩ }

variable {κ : Type} [Core κ] [Narrated κ]

/-- Reports a step that is about to be made. -/
def foretell (r : Reporter) (core : κ) : Reporter :=
  if r.journal.limit.includes .debug then
    { r with journal := (Narrated.foretell core).foldl Journal.note r.journal }
  else r

/-- Reports the writes to the memory since the last report. -/
def reportWrites (r : Reporter) (core : κ) : Reporter :=
  let remarks := Narrated.writes core
  { r with
    journal := remarks.foldl Journal.note r.journal r.reported
    reported := remarks.size }

omit [Narrated κ] in
/-- The registers and flags in one line; flags that are set have upper-case
names. -/
def dump (core : κ) : String :=
  let registers := (Core.registers core).map fun (name, v) => s!"{name}={Text.hex16 v}"
  let flags := (Core.flags core).map fun (name, on) => if on then name.toUpper else name
  " ".intercalate registers ++ " [" ++ " ".intercalate flags ++ "]"

omit [Narrated κ] in
/-- Puts the state of a machine on the screen. Every change but the first
appearance is reported. -/
def display (r : Reporter) (core : κ) (state : Execution.State) : Reporter :=
  if r.shown = some state then r
  else
    let r :=
      if r.shown.isSome then
        r.note .info .emulator s!"{state.name} at {Text.hex16 (Core.pc core)}"
      else r
    { r with shown := some state }

instance : Monitor Reporter κ Execution.Happening where
  hear r core
    | .tested _ => r
    | .stepping => r.foretell core
    | .stepped _ => r.reportWrites core
    | .tickEnded | .interrupted _ => r
    | .moved before after => r.note .info .driver s!"Driver: {before.name} -> {after.name}"
    | .breakpointHit =>
      r.note .info .debugger s!"Breakpoint hit: {Text.hex16 (Core.pc core)}"
    | .ignoredRequest =>
      r.note .warn .driver "Driver: ignoring a debugger request while running"
    | .screen state => r.display core state
    | .debugScreen => { r with journal := r.journal.write (dump core) }

instance : Monitor Reporter κ Cpm.Happening where
  hear r core
    | .stepping => r.foretell core
    | .stepped => r.reportWrites core
    | .haltedForGood =>
      let address := Text.hex16 (Core.pc core)
      r.note .warn .cpm s!"CP/M: halted with interrupts disabled at {address}"
    | .finished cycles => r.note .info .cpm s!"CP/M: program finished after {cycles} cycles"
    | .ignoredCall function =>
      r.note .debug .cpm s!"CP/M: ignoring BDOS function {function.toNat}"

end Reporter

end Retrocore.Narration
