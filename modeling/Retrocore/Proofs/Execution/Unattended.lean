import Retrocore.CommandLine.Emulator
import Retrocore.Proofs.Execution.Moves

/-!
# Breakpoints that nobody attends to

Where there is no terminal, a breakpoint shows the registers once and the run
goes on. The debugger makes the step at the breakpoint, shows the registers and
is left; but whenever the debugger is left, the driver lets one step pass without
looking. That is meant for the instruction under the breakpoint, which has run by
then, so it is the next instruction that passes.

`Trail` says what is noted of such a run, and the driver keeps to it.
`unattended_reports` follows: a step at a breakpoint comes directly after the
driver has come to that breakpoint, unless it comes directly after another one's
registers.
-/

namespace Retrocore.Execution

open CommandLine.Emulator (Unattended)

/-! ## What is noted -/

/-- A note of what happened, with the core at the time. -/
inductive Entry (κ : Type) where
  /-- The driver has come to a breakpoint. -/
  | hit (core : κ)
  /-- The core is about to make a step. -/
  | step (core : κ)
  /-- The registers are shown. -/
  | shown (core : κ)

/-- The note that is taken of a happening, if any. -/
def Happening.entry? {κ : Type} (core : κ) : Happening → Option (Entry κ)
  | .breakpointHit => some (.hit core)
  | .stepping => some (.step core)
  | .debugScreen => some (.shown core)
  | _ => none

/-- A monitor and the notes that were taken, oldest first. -/
structure Logbook (κ ω : Type) where
  inner : ω
  entries : List (Entry κ) := []

variable {κ γ ι ω : Type}

instance [Monitor ω κ Happening] : Monitor (Logbook κ ω) κ Happening where
  hear w core what :=
    ⟨Monitor.hear w.inner core what, w.entries ++ (what.entry? core).toList⟩

/-- The driver has come to a breakpoint at the address, and the instruction there
has not been run since. `Runs` says of a core that its next step runs the
instruction at the program counter. -/
def Announced [Core κ] (Runs : κ → Prop) (before : List (Entry κ)) (address : Word) : Prop :=
  ∃ earlier c later, before = earlier ++ .hit c :: later ∧ Core.pc c = address ∧
    ∀ k, .step k ∈ later → Core.pc k = address → ¬ Runs k

/-- The last that happened is that a breakpoint was stepped past and the
registers were shown. -/
def Departed (before : List (Entry κ)) : Prop :=
  ∃ earlier c c', before = earlier ++ [.hit c, .step c, .shown c']

/-- A step leads from one core to the other, and an interrupt may have been
requested behind it. -/
def Leads [Core κ] (c c' : κ) : Prop :=
  c' = (Core.step c).state ∨ ∃ byte, c' = Core.interrupt (Core.step c).state byte

/-- What follows a breakpoint begins with its step and its registers. -/
def Served [Core κ] (c : κ) (after : List (Entry κ)) : Prop :=
  ∃ c' rest, after = .step c :: .shown c' :: rest ∧ Leads c c'

/-! ## Trails -/

/-- What is to come next. -/
inductive Stage (κ : Type) where
  /-- Steps until the next breakpoint. -/
  | free
  /-- The step at a breakpoint. -/
  | hit (core : κ)
  /-- Its registers. -/
  | stepped (core : κ)
  /-- The step that passes without looking. -/
  | shown

/-- What may come next, and what after that. -/
inductive Stage.Next [Core κ] (debugger : Debugger) : Stage κ → Entry κ → Stage κ → Prop
  | step {k : κ} (hclear : debugger.shouldBreak (Core.pc k) = false) :
    Next debugger .free (.step k) .free
  | hit {c : κ} (hbreak : debugger.shouldBreak (Core.pc c) = true) :
    Next debugger .free (.hit c) (.hit c)
  | own (c : κ) : Next debugger (.hit c) (.step c) (.stepped c)
  | shown {c c' : κ} (hleads : Leads c c') : Next debugger (.stepped c) (.shown c') .shown
  | pass (k : κ) : Next debugger .shown (.step k) .free

/-- The notes of a run that nobody attends to, and what is to come next. -/
inductive Trail [Core κ] (debugger : Debugger) : Stage κ → List (Entry κ) → Prop
  | nil : Trail debugger .free []
  | snoc {stage stage' : Stage κ} {es : List (Entry κ)} {e : Entry κ}
    (h : Trail debugger stage es) (hnext : stage.Next debugger e stage') :
    Trail debugger stage' (es ++ [e])

namespace Trail

variable [Core κ] {debugger : Debugger} {stage stage' : Stage κ} {es before after : List (Entry κ)}
  {e : Entry κ} {c k : κ}

theorem of_snoc (h : Trail debugger stage' (es ++ [e])) :
    ∃ stage, Trail debugger stage es ∧ stage.Next debugger e stage' := by
  generalize hall : es ++ [e] = all at h
  cases h with
  | nil => cases es <;> cases hall
  | snoc h hnext =>
    obtain ⟨rfl, he⟩ := List.append_inj' hall rfl
    cases he
    exact ⟨_, h, hnext⟩

/-- What was noted up to some time is a trail, too. -/
theorem of_prefix (h : Trail debugger stage es) (hbefore : before <+: es) :
    ∃ stage, Trail debugger stage before := by
  induction h with
  | nil =>
    rw [List.prefix_nil.mp hbefore]
    exact ⟨_, .nil⟩
  | snoc h hnext ih =>
    rcases List.prefix_concat_iff.mp hbefore with rfl | hbefore
    · exact ⟨_, .snoc h hnext⟩
    · exact ih hbefore

/-- A trail that has come to a hit ends with it. -/
theorem eq_of_hit (h : Trail debugger (.hit c) es) : ∃ earlier, es = earlier ++ [.hit c] := by
  cases h with
  | snoc h hnext =>
    cases hnext
    exact ⟨_, rfl⟩

theorem departed (h : Trail debugger .shown es) : Departed es := by
  cases h with
  | snoc h hnext =>
    cases hnext
    cases h with
    | snoc h hnext =>
      cases hnext
      obtain ⟨earlier, rfl⟩ := h.eq_of_hit
      have hsplit (c c' : κ) : earlier ++ [.hit c] ++ [.step c] ++ [.shown c'] =
          earlier ++ [.hit c, .step c, .shown c'] := by
        simp only [List.append_assoc, List.cons_append, List.nil_append]
      exact ⟨earlier, _, _, hsplit _ _⟩

/-- What has been shown last decides about the stage. -/
theorem stage_of_departed (h : Trail debugger stage before) (hdeparted : Departed before) :
    stage = .shown := by
  obtain ⟨earlier, c, c', rfl⟩ := hdeparted
  have hsplit : earlier ++ [.hit c, .step c, .shown c'] =
      earlier ++ [.hit c, .step c] ++ [.shown c'] := by
    rw [List.append_assoc]
    rfl
  rw [hsplit] at h
  obtain ⟨stage₀, _, hnext⟩ := h.of_snoc
  cases hnext
  rfl

/-- The driver comes to breakpoints only. -/
theorem break_of_hit (h : Trail debugger stage es) (hhit : .hit c ∈ es) :
    debugger.shouldBreak (Core.pc c) = true := by
  obtain ⟨before, after, rfl⟩ := List.append_of_mem hhit
  have hbegin : before ++ [.hit c] <+: before ++ .hit c :: after := ⟨after, List.append_assoc ..⟩
  obtain ⟨stage₁, h⟩ := h.of_prefix hbegin
  obtain ⟨stage₀, _, hnext⟩ := h.of_snoc
  cases hnext with
  | hit hbreak => exact hbreak

/-- A step at a breakpoint is the breakpoint's own, or the one that passes. -/
theorem before_step (h : Trail debugger stage (before ++ [.step k]))
    (hbreak : debugger.shouldBreak (Core.pc k) = true) :
    (∃ earlier, before = earlier ++ [.hit k]) ∨ Departed before := by
  obtain ⟨stage₀, hbefore, hnext⟩ := h.of_snoc
  cases hnext with
  | step hclear =>
    rw [hclear] at hbreak
    cases hbreak
  | own => exact .inl hbefore.eq_of_hit
  | pass => exact .inr hbefore.departed

/-- A breakpoint is served, unless the notes end before. -/
theorem after_hit (h : Trail debugger stage (before ++ .hit c :: after)) :
    (after = [] ∧ stage = .hit c) ∨ (after = [.step c] ∧ stage = .stepped c) ∨
      Served c after := by
  match after with
  | [] =>
    obtain ⟨stage₀, h, hhit⟩ := h.of_snoc
    cases hhit
    exact .inl ⟨rfl, rfl⟩
  | [e] =>
    have hall : before ++ [.hit c, e] = before ++ [.hit c] ++ [e] := by
      rw [List.append_assoc]
      rfl
    rw [hall] at h
    obtain ⟨stage₁, h, hnext⟩ := h.of_snoc
    obtain ⟨stage₀, h, hhit⟩ := h.of_snoc
    cases hhit
    cases hnext
    exact .inr (.inl ⟨rfl, rfl⟩)
  | e :: e' :: rest =>
    have hbegin : before ++ [.hit c] ++ [e] ++ [e'] <+: before ++ .hit c :: e :: e' :: rest := by
      refine ⟨rest, ?_⟩
      simp only [List.append_assoc, List.cons_append, List.nil_append]
    obtain ⟨stage₃, h⟩ := h.of_prefix hbegin
    obtain ⟨stage₂, h, hshown⟩ := h.of_snoc
    obtain ⟨stage₁, h, hstep⟩ := h.of_snoc
    obtain ⟨stage₀, h, hhit⟩ := h.of_snoc
    cases hhit
    cases hstep
    cases hshown with
    | shown hleads => exact .inr (.inr ⟨_, rest, rfl, hleads⟩)

end Trail

/-! ## The driver keeps to it -/

namespace Driver

/-- Where a driver is that nobody attends to, and what it is about to note. -/
inductive Standing [Core κ] (d : Driver κ γ Unattended ω) : Stage κ → Prop
  | running (hstate : d.state = .running) (hpass : d.passBreakpoint = false)
    (hshown : d.input.shown = false) : Standing d .free
  | arrived (hstate : d.state = .stepping) (hshown : d.input.shown = false)
    (hable : Core.canRun d.core = true) : Standing d (.hit d.core)
  | leaving (hstate : d.state = .stepping) (hshown : d.input.shown = true) : Standing d .shown
  | left (hstate : d.state = .running) (hpass : d.passBreakpoint = true)
    (hshown : d.input.shown = false) : Standing d .shown
  | stopped {stage : Stage κ} (hstate : d.state = .stopped)
    (hidle : stage = .free ∨ stage = .shown) : Standing d stage

/-- A running machine is on its way to the next breakpoint, or leaves the last; the
mark tells which. -/
theorem Standing.of_running [Core κ] {d : Driver κ γ Unattended ω} {stage : Stage κ}
    (h : d.Standing stage) (hrunning : d.state = .running) : d.input.shown = false ∧
      (stage = .free ∧ d.passBreakpoint = false ∨ stage = .shown ∧ d.passBreakpoint = true) := by
  cases h with
  | running _ hpass hshown => exact ⟨hshown, .inl ⟨rfl, hpass⟩⟩
  | left _ hpass hshown => exact ⟨hshown, .inr ⟨rfl, hpass⟩⟩
  | arrived hstate => cases hrunning.symm.trans hstate
  | leaving hstate => cases hrunning.symm.trans hstate
  | stopped hstate => cases hrunning.symm.trans hstate

/-- Only these parts of a driver say where it is. -/
theorem Standing.frame [Core κ] {d d' : Driver κ γ Unattended ω} {stage : Stage κ}
    (h : d.Standing stage) (hstate : d'.state = d.state) (hcore : d'.core = d.core)
    (hinput : d'.input = d.input) (hpass : d'.passBreakpoint = d.passBreakpoint) :
    d'.Standing stage := by
  cases h with
  | running h hunmarked hshown =>
    exact .running (hstate.trans h) (hpass.trans hunmarked) (hinput ▸ hshown)
  | arrived h hshown hable =>
    rw [← hcore] at hable ⊢
    exact .arrived (hstate.trans h) (hinput ▸ hshown) hable
  | leaving h hshown => exact .leaving (hstate.trans h) (hinput ▸ hshown)
  | left h hmarked hshown =>
    exact .left (hstate.trans h) (hpass.trans hmarked) (hinput ▸ hshown)
  | stopped h hidle => exact .stopped (hstate.trans h) hidle

/-- What has been noted. -/
def entries (d : Driver κ γ ι (Logbook κ ω)) : List (Entry κ) := d.monitor.entries

/-- The notes are a trail, and the driver is where they say. -/
structure OnTrail [Core κ] (debugger : Debugger) (d : Driver κ γ Unattended (Logbook κ ω))
    (stage : Stage κ) : Prop where
  unedited : d.debugger = debugger
  trail : Trail debugger stage d.entries
  standing : d.Standing stage

section Noted

variable [Monitor ω κ Happening] {d : Driver κ γ ι (Logbook κ ω)}

theorem entries_tell (what : Happening) :
    (d.tell what).entries = d.entries ++ (what.entry? d.core).toList := rfl

theorem entries_tell_none {what : Happening} (hnone : what.entry? d.core = none) :
    (d.tell what).entries = d.entries := by
  rw [entries_tell, hnone]
  exact List.append_nil _

theorem entries_transition (event : Event) : (d.transition event).1.entries = d.entries := by
  rcases transition_cases (d := d) event with ⟨_, hsame⟩ | ⟨next, _, hmoved⟩
  · rw [hsame]
  · rw [hmoved]
    exact entries_tell_none rfl

variable [Core κ]

theorem entries_endTick : d.endTick.entries = d.entries := by
  rcases endTick_cases (d := d) with ⟨_, htick⟩ | ⟨byte, _, htick⟩
  · rw [htick]
    exact entries_tell_none rfl
  · rw [htick, entries_tell_none rfl]
    exact entries_tell_none (d := { d with tickCycles := 0 }) rfl

/-- A step is entered in the logbook before it is made. -/
theorem entries_stepCore : d.stepCore.1.entries = d.entries ++ [.step d.core] := by
  rw [stepCore_eq]
  exact List.append_nil _

end Noted

/-- The debugger is asked for a step, and the next time to continue. -/
theorem poll_unattended (d : Driver κ γ Unattended ω) :
    d.poll true = ({ d with input := { shown := !d.input.shown } },
      .ok (if d.input.shown then { continueRunning := true } else { stepInstruction := true })) := by
  obtain ⟨core, governor, ⟨shown⟩⟩ := d
  cases shown <;> rfl

/-- A single step of a core that can run, with the end of the tick behind it. -/
theorem singleStep_of_able [Core κ] [Monitor ω κ Happening] {d d' : Driver κ γ ι ω}
    {result : Except Fault Unit} (hable : Core.canRun d.core = true)
    (hstep : (d.tell (.tested true)).stepCore = (d', result)) :
    d.singleStep = (if result.isOk && d'.spent then d'.endTick else d', result) := by
  unfold singleStep testCore
  rw [hable]
  simp only [if_true, hstep]
  cases result <;> rfl

/-- Where the input asks for a step, the debugger makes it and shows the registers. -/
theorem performStepping_of_step [Core κ] [Monitor ω κ Happening] [Input ι]
    {d d' : Driver κ γ ι ω} (hpoll : d.poll true = (d', .ok { stepInstruction := true }))
    (limit : Nat) :
    d.performStepping limit =
      (if d'.singleStep.2.isOk then d'.singleStep.1.tell .debugScreen else d'.singleStep.1,
        d'.singleStep.2) := by
  unfold performStepping
  rw [hpoll]
  dsimp only
  simp only [Bool.false_eq_true, if_false, if_true]
  cases d'.singleStep.2 <;> rfl

/-- What the end of a tick, if it is due, leaves of a driver. -/
structure Settled [Core κ] (d d' : Driver κ γ ι (Logbook κ ω)) : Prop where
  core : d'.core = d.core ∨ ∃ byte, d'.core = Core.interrupt d.core byte
  state : d'.state = d.state
  input : d'.input = d.input
  debugger : d'.debugger = d.debugger
  entries : d'.entries = d.entries

theorem settled [Core κ] [Monitor ω κ Happening] (d : Driver κ γ ι (Logbook κ ω)) :
    Settled d (if d.spent then d.endTick else d) := by
  split
  next =>
    refine ⟨?_, endTick_state, endTick_input, endTick_debugger, entries_endTick⟩
    rcases endTick_cases (d := d) with ⟨_, htick⟩ | ⟨byte, _, htick⟩
    · rw [htick]
      exact .inl rfl
    · rw [htick]
      exact .inr ⟨byte, rfl⟩
  next => exact ⟨.inl rfl, rfl, rfl, rfl, rfl⟩

/-- The step at a breakpoint has failed, and that is the end of the run. -/
def BrokenOff [Core κ] (debugger : Debugger)
    (r : Driver κ γ Unattended (Logbook κ ω) × Except Fault Unit) : Prop :=
  ∃ c fault, Trail debugger (.stepped c) r.1.entries ∧ (Core.step c).result = .error fault ∧
    r.2 = .error fault

namespace OnTrail

variable [Core κ] {d : Driver κ γ Unattended (Logbook κ ω)} {debugger : Debugger} {stage : Stage κ}

theorem new (core : κ) (governor : γ) (monitor : ω) (config : Config) (debugger : Debugger) :
    let logbook : Logbook κ ω := { inner := monitor }
    OnTrail debugger { Driver.new core governor ({} : Unattended) logbook config with debugger }
      .free :=
  ⟨rfl, .nil, .running rfl rfl rfl⟩

variable [Monitor ω κ Happening]

theorem aside (h : OnTrail debugger d stage) {what : Happening}
    (hnone : what.entry? d.core = none) : OnTrail debugger (d.tell what) stage := by
  refine ⟨h.unedited, ?_, h.standing.frame rfl rfl rfl rfl⟩
  rw [entries_tell_none hnone]
  exact h.trail

theorem endTick (h : OnTrail debugger d stage) (hrunning : d.state = .running) :
    OnTrail debugger d.endTick stage := by
  refine ⟨endTick_debugger.trans h.unedited, ?_, ?_⟩
  · rw [entries_endTick]
    exact h.trail
  · obtain ⟨hshown, hstage⟩ := h.standing.of_running hrunning
    have hstate := (endTick_state (d := d)).trans hrunning
    rw [← endTick_input] at hshown
    rw [← endTick_passBreakpoint] at hstage
    obtain ⟨rfl, hpass⟩ | ⟨rfl, hpass⟩ := hstage
    · exact .running hstate hpass hshown
    · exact .left hstate hpass hshown

/-- A running machine makes a step. -/
theorem run (h : OnTrail debugger d stage) (hrunning : d.state = .running)
    (hpass : d.passBreakpoint = true ∨ d.debugger.shouldBreak (Core.pc d.core) = false) :
    OnTrail debugger { d with passBreakpoint := false }.stepCore.1 .free := by
  obtain ⟨hshown, hstage⟩ := h.standing.of_running hrunning
  have hnext : stage.Next debugger (.step d.core) .free := by
    obtain ⟨rfl, hunmarked⟩ | ⟨rfl, _⟩ := hstage
    · rw [hunmarked, h.unedited] at hpass
      exact .step (hpass.resolve_left Bool.false_ne_true)
    · exact .pass d.core
  refine ⟨stepCore_debugger.trans h.unedited, ?_, ?_⟩
  · rw [entries_stepCore]
    exact h.trail.snoc hnext
  · rw [← stepCore_input (d := { d with passBreakpoint := false })] at hshown
    exact .running (stepCore_state.trans hrunning) stepCore_passBreakpoint hshown

/-- A running machine comes to a breakpoint. -/
theorem stop (h : OnTrail debugger d stage) (hrunning : d.state = .running)
    (hpass : d.passBreakpoint = false) (hable : Core.canRun d.core = true)
    (hbreak : d.debugger.shouldBreak (Core.pc d.core) = true) :
    OnTrail debugger ((d.tell .breakpointHit).transition .breakpointHit).1 (.hit d.core) := by
  obtain ⟨hshown, ⟨rfl, _⟩ | ⟨_, hmarked⟩⟩ := h.standing.of_running hrunning
  · refine ⟨(transition_debugger _).trans h.unedited, ?_, ?_⟩
    · rw [entries_transition, entries_tell]
      rw [h.unedited] at hbreak
      exact h.trail.snoc (.hit hbreak)
    · rw [transition_breakpointHit (d := d.tell .breakpointHit) hrunning]
      exact .arrived rfl hshown hable
  · cases hpass.symm.trans hmarked

/-- The core of a running machine can run no further. -/
theorem halt (h : OnTrail debugger d stage) (hrunning : d.state = .running) :
    OnTrail debugger (d.transition .stop).1 stage := by
  refine ⟨(transition_debugger _).trans h.unedited, ?_, .stopped ?_ ?_⟩
  · rw [entries_transition]
    exact h.trail
  · unfold transition
    rw [hrunning]
    rfl
  · exact (h.standing.of_running hrunning).2.imp And.left And.left

/-- The loop of a running machine. -/
theorem runSteps (h : OnTrail debugger d stage) (hrunning : d.state = .running) (steps : Nat) :
    ∃ stage, OnTrail debugger (runSteps steps d).1 stage := by
  induction steps generalizing d stage with
  | zero =>
    unfold Driver.runSteps
    split
    next => exact ⟨stage, h.endTick hrunning⟩
    next => exact ⟨stage, h⟩
  | succ steps ih =>
    have htested (able : Bool) : OnTrail debugger (d.tell (.tested able)) stage := h.aside rfl
    cases d.round with
    | spent _ hrun =>
      rw [hrun]
      exact ⟨stage, h.endTick hrunning⟩
    | ends _ hrun =>
      rw [hrun]
      exact ⟨stage, (htested false).halt hrunning⟩
    | waits _ hrun =>
      rw [hrun]
      exact ⟨stage, (htested false).endTick hrunning⟩
    | breaks _ hable hpass hbreak hrun =>
      rw [hrun]
      exact ⟨.hit d.core, (htested true).stop hrunning hpass hable hbreak⟩
    | fails _ hpass _ hrun =>
      rw [hrun]
      exact ⟨.free, (htested true).run hrunning hpass⟩
    | goes _ hpass _ hrun =>
      rw [hrun]
      have hstepped : OnTrail debugger d.readied.stepCore.1 .free :=
        (htested true).run hrunning hpass
      exact ih hstepped (stepCore_state.trans hrunning)

/-- A tick of a running machine. Nobody asks for anything in it. -/
theorem performRunning (h : OnTrail debugger d stage) (hrunning : d.state = .running)
    (limit : Nat) : ∃ stage, OnTrail debugger (d.performRunning limit).1 stage := by
  obtain ⟨stage', hran⟩ := h.runSteps hrunning limit
  unfold Driver.performRunning
  split
  next d₁ fault heq =>
    rw [heq] at hran
    exact ⟨stage', hran⟩
  next d₁ heq =>
    rw [heq] at hran
    exact ⟨stage', hran⟩
  next d₁ heq =>
    rw [heq] at hran
    have hpoll : d₁.poll false = (d₁, .ok {}) := rfl
    rw [hpoll]
    exact ⟨stage', hran.aside rfl⟩

/-- The debugger is left, and a step is going to pass without looking. -/
theorem leave (h : OnTrail debugger d .shown) (hstepping : d.state = .stepping)
    (hshown : d.input.shown = true) (limit : Nat) :
    OnTrail debugger (d.performStepping limit).1 .shown := by
  let gone : Driver κ γ Unattended (Logbook κ ω) := { d with input := { shown := false } }
  have hperformed : d.performStepping limit = gone.transition .continue := by
    unfold performStepping
    rw [poll_unattended, hshown]
    rfl
  have hon : gone.state.on .continue = some .running := by
    rw [show gone.state = .stepping from hstepping]
    rfl
  rw [hperformed]
  refine ⟨(transition_debugger _).trans h.unedited, ?_, ?_⟩
  · rw [entries_transition]
    exact h.trail
  · unfold transition
    rw [hon]
    refine .left rfl ?_ rfl
    show (d.passBreakpoint || decide (d.state = .stepping ∧ State.running ≠ .stopped)) = true
    rw [decide_eq_true ⟨hstepping, State.noConfusion⟩, Bool.or_true]

/-- The debugger makes the step at the breakpoint and shows the registers, or the
step fails. -/
theorem serve (h : OnTrail debugger d (.hit d.core)) (hstepping : d.state = .stepping)
    (hshown : d.input.shown = false) (hable : Core.canRun d.core = true) (limit : Nat) :
    OnTrail debugger (d.performStepping limit).1 .shown ∨
      BrokenOff debugger (d.performStepping limit) := by
  let polled : Driver κ γ Unattended (Logbook κ ω) := { d with input := { shown := true } }
  let ready := polled.tell (.tested true)
  let stepped := ready.stepCore.1
  have hable : Core.canRun polled.core = true := hable
  have hpoll : d.poll true = (polled, .ok { stepInstruction := true }) := by
    rw [poll_unattended, hshown]
    rfl
  have htrail : Trail debugger (.stepped d.core) stepped.entries := by
    rw [entries_stepCore, entries_tell_none rfl]
    exact h.trail.snoc (.own d.core)
  cases hresult : (Core.step d.core).result with
  | error fault =>
    have hstep : ready.stepCore = (stepped, .error fault) := by
      refine Prod.ext rfl ?_
      rw [stepCore_eq]
      exact congrArg (Except.map _) hresult
    have hperformed : d.performStepping limit = (stepped, .error fault) := by
      rw [performStepping_of_step hpoll, singleStep_of_able hable hstep]
      rfl
    rw [hperformed]
    exact .inr ⟨d.core, fault, htrail, hresult, rfl⟩
  | ok n =>
    let settled := if stepped.spent then stepped.endTick else stepped
    have hstep : ready.stepCore = (stepped, .ok ()) := by
      refine Prod.ext rfl ?_
      rw [stepCore_eq]
      exact congrArg (Except.map _) hresult
    have hperformed : d.performStepping limit = (settled.tell .debugScreen, .ok ()) := by
      rw [performStepping_of_step hpoll, singleStep_of_able hable hstep]
      rfl
    rw [hperformed]
    have hsettled : Settled stepped settled := Driver.settled stepped
    have hcore : stepped.core = (Core.step d.core).state := stepCore_core
    refine .inl ⟨?_, ?_, ?_⟩
    · exact (hsettled.debugger.trans stepCore_debugger).trans h.unedited
    · rw [entries_tell, hsettled.entries]
      refine htrail.snoc (.shown ?_)
      unfold Leads
      rw [← hcore]
      exact hsettled.core
    · refine .leaving ((hsettled.state.trans stepCore_state).trans hstepping) ?_
      show settled.input.shown = true
      rw [hsettled.input, stepCore_input]
      rfl

/-- A tick, whatever the state. -/
theorem performWithin [Governor γ] (h : OnTrail debugger d stage) (limit : Nat) :
    (∃ stage, OnTrail debugger (d.performWithin limit).1 stage) ∨
      BrokenOff debugger (d.performWithin limit) := by
  have hasked : OnTrail debugger d.isDue.2 stage :=
    ⟨h.unedited, h.trail, h.standing.frame rfl rfl rfl rfl⟩
  unfold Driver.performWithin
  split
  next hrunning =>
    dsimp only
    split
    next => exact .inl (hasked.performRunning hrunning limit)
    next => exact .inl ⟨stage, hasked⟩
  next hpaused =>
    cases h.standing with
    | running hstate => cases hpaused.symm.trans hstate
    | arrived hstate => cases hpaused.symm.trans hstate
    | leaving hstate => cases hpaused.symm.trans hstate
    | left hstate => cases hpaused.symm.trans hstate
    | stopped hstate => cases hpaused.symm.trans hstate
  next hstepping =>
    have hstanding := h.standing
    cases hstanding with
    | running hstate => cases hstepping.symm.trans hstate
    | arrived _ hshown hable => exact (h.serve hstepping hshown hable limit).imp_left fun h => ⟨_, h⟩
    | leaving _ hshown => exact .inl ⟨_, h.leave hstepping hshown limit⟩
    | left hstate => cases hstepping.symm.trans hstate
    | stopped hstate => cases hstepping.symm.trans hstate
  next => exact .inl ⟨stage, h⟩

/-- Any number of ticks. -/
theorem performMany [Governor γ] (h : OnTrail debugger d stage) (ticks : Nat) :
    (∃ stage, OnTrail debugger (performMany ticks d).1 stage) ∨
      BrokenOff debugger (performMany ticks d) := by
  induction ticks generalizing d stage with
  | zero => exact .inl ⟨stage, h⟩
  | succ ticks ih =>
    have hperformed := h.performWithin (d.config.cyclesPerTick - d.tickCycles)
    unfold Driver.performMany
    split
    next => exact .inl ⟨stage, h⟩
    next =>
      unfold perform
      split
      next d₁ fault heq =>
        rw [heq] at hperformed
        exact hperformed
      next d₁ heq =>
        rw [heq] at hperformed
        rcases hperformed with ⟨stage', h⟩ | ⟨c, fault, _, _, hresult⟩
        · exact ih h
        · cases hresult

end OnTrail

/-- How a run that nobody attends to reports on its breakpoints. `Runs` says of a
core that its next step runs the instruction at the program counter. -/
structure Reports [Core κ] (Runs : κ → Prop) (debugger : Debugger)
    (r : Driver κ γ ι (Logbook κ ω) × Except Fault Unit) : Prop where
  /-- The driver comes to breakpoints only. -/
  hits : ∀ c, .hit c ∈ r.1.entries → debugger.contains (Core.pc c) = true
  /-- A step at a breakpoint is announced, unless it comes directly after another
  breakpoint's registers. -/
  announced : ∀ before k, before ++ [.step k] <+: r.1.entries →
    debugger.contains (Core.pc k) = true → ¬ Departed before → Announced Runs before (Core.pc k)
  /-- There it is not, as long as whenever the driver came to that breakpoint the
  instruction was run. -/
  unannounced : ∀ before k, before ++ [.step k] <+: r.1.entries → Departed before →
    (∀ c, .hit c ∈ before → Core.pc c = Core.pc k → Runs c) → ¬ Announced Runs before (Core.pc k)
  /-- Whenever the driver comes to a breakpoint, the step there is made and the
  registers are shown, unless the step fails or the run is cut off. -/
  served : ∀ before c after, r.1.entries = before ++ .hit c :: after →
    (after = [] ∧ r.1.state = .stepping) ∨
    (after = [.step c] ∧ ∃ fault, (Core.step c).result = .error fault ∧ r.2 = .error fault) ∨
    Served c after

/-- In debug mode every breakpoint counts. -/
theorem shouldBreak_of_debugMode {debugger : Debugger} (hmode : debugger.debugMode = true)
    (pc : Word) : debugger.shouldBreak pc = debugger.contains pc := by
  unfold Debugger.shouldBreak
  rw [hmode, Bool.true_and]

/-- Everything that is reported can be read off the trail. -/
theorem Reports.of_trail [Core κ] {debugger : Debugger} {stage : Stage κ} (Runs : κ → Prop)
    {r : Driver κ γ ι (Logbook κ ω) × Except Fault Unit} (hmode : debugger.debugMode = true)
    (htrail : Trail debugger stage r.1.entries)
    (hhit : ∀ c, stage = .hit c → r.1.state = .stepping)
    (hstepped : ∀ c, stage = .stepped c →
      ∃ fault, (Core.step c).result = .error fault ∧ r.2 = .error fault) :
    Reports Runs debugger r where
  hits c hhit := by
    have hbreak := htrail.break_of_hit hhit
    rwa [shouldBreak_of_debugMode hmode] at hbreak
  announced := by
    intro before k hbegin hbreak hdeparted
    obtain ⟨_, h⟩ := htrail.of_prefix hbegin
    rw [← shouldBreak_of_debugMode hmode] at hbreak
    rcases h.before_step hbreak with ⟨earlier, rfl⟩ | h
    · exact ⟨earlier, k, [], rfl, rfl, fun _ hmem => absurd hmem List.not_mem_nil⟩
    · exact absurd h hdeparted
  unannounced := by
    rintro before k hbegin hdeparted hruns ⟨earlier, c, later, rfl, hpc, hunrun⟩
    obtain ⟨_, h⟩ := htrail.of_prefix ((List.prefix_append _ _).trans hbegin)
    obtain rfl := h.stage_of_departed hdeparted
    -- wherever the driver came to the breakpoint, the step there is behind it
    rcases h.after_hit with ⟨_, hstage⟩ | ⟨_, hstage⟩ | ⟨c', rest, rfl, _⟩
    · cases hstage
    · cases hstage
    · exact hunrun c List.mem_cons_self hpc
        (hruns c (List.mem_append_right _ List.mem_cons_self) hpc)
  served := by
    intro before c after hentries
    rw [hentries] at htrail
    rcases htrail.after_hit with ⟨hnil, hstage⟩ | ⟨hstep, hstage⟩ | hserved
    · exact .inl ⟨hnil, hhit c hstage⟩
    · exact .inr (.inl ⟨hstep, hstepped c hstage⟩)
    · exact .inr (.inr hserved)

end Driver

open Driver in
/-- **Unattended, a breakpoint is reported** whenever the driver comes to it; but
directly after a breakpoint's step another may be passed without a report. -/
theorem unattended_reports [Core κ] [Governor γ] [Monitor ω κ Happening] (Runs : κ → Prop)
    (core : κ) (governor : γ) (monitor : ω) (config : Config) (debugger : Debugger)
    (hmode : debugger.debugMode = true) (ticks : Nat) :
    let logbook : Logbook κ ω := { inner := monitor }
    let d := { Driver.new core governor ({} : Unattended) logbook config with debugger }
    Reports Runs debugger (d.run ticks) := by
  intro logbook d
  have hstart : OnTrail debugger { d with core := Core.start d.core } .free :=
    .new (Core.start core) governor monitor config debugger
  rcases hstart.performMany ticks with ⟨stage, h⟩ | ⟨c, fault, htrail, hfault, hresult⟩
  · refine Reports.of_trail Runs hmode h.trail ?_ ?_
    · rintro c rfl
      cases h.standing with
      | arrived hstate => exact hstate
      | stopped _ hidle => rcases hidle with h | h <;> cases h
    · rintro c rfl
      cases h.standing with
      | stopped _ hidle => rcases hidle with h | h <;> cases h
  · refine Reports.of_trail Runs hmode htrail ?_ ?_
    · intro c' hstage
      cases hstage
    · intro c' hstage
      cases hstage
      exact ⟨fault, hfault, hresult⟩

/-- NOPs with breakpoints at 1 and 4, which lie far enough apart. -/
theorem unattended_reports_apart :
    let core : I8080.Machine Empty (Recorder Byte Byte) :=
      .new (.ofList [0, 0, 0, 0, 0, 0, 0, 0]) 0
    let logbook : Logbook (I8080.Machine Empty (Recorder Byte Byte)) Unit := { inner := () }
    let config : Config := { debugMode := true }
    let debugger : Debugger := { breakpoints := [.ofAddress 1, .ofAddress 4], debugMode := true }
    let d := { Driver.new core () ({} : Unattended) logbook config with debugger }
    debugger.debugMode = true ∧ Driver.Reports (·.action = .run) debugger (d.run 10) ∧
      (d.run 10).1.state = .stopped ∧
      (d.run 10).1.entries.map (fun
        | .hit c => ("hit", Core.pc c)
        | .step c => ("step", Core.pc c)
        | .shown c => ("shown", Core.pc c)) =
      [("step", 0), ("hit", 1), ("step", 1), ("shown", 2), ("step", 2), ("step", 3),
        ("hit", 4), ("step", 4), ("shown", 5), ("step", 5), ("step", 6), ("step", 7)] := by
  intro core logbook config debugger d
  refine ⟨rfl, ?_, by decide, by decide⟩
  exact unattended_reports (·.action = .run) core () () config debugger rfl 10

/-- With breakpoints at 1 and 2 the instruction at 2 is run without the driver
ever having come to a breakpoint there. -/
theorem unattended_passes_neighbour :
    let core : I8080.Machine Empty (Recorder Byte Byte) := .new (.ofList [0, 0, 0, 0]) 0
    let logbook : Logbook (I8080.Machine Empty (Recorder Byte Byte)) Unit := { inner := () }
    let config : Config := { debugMode := true }
    let debugger : Debugger := { breakpoints := [.ofAddress 1, .ofAddress 2], debugMode := true }
    let d := { Driver.new core () ({} : Unattended) logbook config with debugger }
    debugger.contains 2 = true ∧ ∃ before k, before ++ [.step k] <+: (d.run 10).1.entries ∧
      Core.pc k = 2 ∧ k.action = .run ∧ ∀ Runs, ¬ Announced Runs before 2 := by
  intro core logbook config debugger d
  let entries := (d.run 10).1.entries
  have hfifth : entries[4]?.any (fun
      | .step k => Core.pc k == 2 && k.action == .run
      | _ => false) = true := by
    decide
  have hnever : (entries.take 4).all (fun
      | .hit c => Core.pc c != 2
      | _ => true) = true := by
    decide
  obtain ⟨e, he, hthere⟩ := (Option.any_eq_true _ _).mp hfifth
  cases e with
  | step k =>
    obtain ⟨hpc, haction⟩ := (Bool.and_eq_true _ _).mp hthere
    have hbegin : entries.take 4 ++ [.step k] = entries.take (4 + 1) := by
      rw [List.take_add_one (i := 4), he]
      rfl
    refine ⟨by decide, entries.take 4, k, ?_, eq_of_beq hpc, eq_of_beq haction, ?_⟩
    · rw [hbegin]
      exact List.take_prefix _ entries
    · rintro Runs ⟨earlier, c, later, hbefore, hhit, _⟩
      rw [hbefore] at hnever
      have hother := List.all_eq_true.mp hnever (.hit c)
        (List.mem_append_right _ List.mem_cons_self)
      exact bne_iff_ne.mp hother hhit
  | _ => cases hthere

end Retrocore.Execution
