import Retrocore.Proofs.Execution.Moves

/-!
# No breakpoint is run over

A running machine stops before an instruction with a breakpoint, but if it always
did, it would never leave it again: the first step after the debugger is made
without looking. The driver keeps a mark for that. It is set in one place and
taken away in another, and in between may lie pauses, ticks that are not due,
faults, edits of the breakpoints and ticks in which the core cannot run.

`Fresh` says of everything that happened whether the next step is the first since
the debugger was left, without speaking of the mark; `Marked` says that the mark
is set just then, while the driver runs or is paused. That is the whole
invariant, and the moves of `Proofs/Execution/Moves` keep it. `no_breakpoint_run_over`
follows: a running machine makes no step at a breakpoint but a first one, and
where it would make another it is in the debugger instead, with nothing else
changed.
-/

namespace Retrocore.Execution

/-! ## First steps -/

/-- The driver has left the debugger, and no step has been made since. -/
def Fresh (log : List Happening) : Prop :=
  ∃ before next after, log = before ++ .moved .stepping next :: after ∧ .stepping ∉ after

namespace Fresh

theorem not_nil : ¬ Fresh [] := by
  rintro ⟨before, next, after, hlog, _⟩
  cases before <;> cases hlog

theorem moved (log : List Happening) (next : State) :
    Fresh (log ++ [.moved .stepping next]) :=
  ⟨log, next, [], rfl, List.not_mem_nil⟩

/-- Of one more entry than the departure, only a step counts. -/
theorem snoc_iff {log : List Happening} {e : Happening} (he : ∀ next, e ≠ .moved .stepping next) :
    Fresh (log ++ [e]) ↔ Fresh log ∧ e ≠ .stepping := by
  constructor
  · rintro ⟨before, next, after, hlog, hquiet⟩
    -- the new entry is not the departure, so it is the last of those behind it
    rcases List.eq_nil_or_concat after with rfl | ⟨earlier, last, rfl⟩
    · obtain ⟨-, hlast⟩ := List.append_inj' hlog rfl
      exact absurd (List.cons.inj hlast).1 (he next)
    · have hsplit : log ++ [e] = (before ++ .moved .stepping next :: earlier) ++ [last] := by
        rw [hlog, List.concat_eq_append, List.append_assoc, List.cons_append]
      obtain ⟨hearlier, hlast⟩ := List.append_inj' hsplit rfl
      obtain rfl := (List.cons.inj hlast).1
      rw [List.concat_eq_append, List.mem_append, not_or] at hquiet
      refine ⟨⟨before, next, earlier, hearlier, hquiet.1⟩, fun hstep => hquiet.2 ?_⟩
      rw [hstep]
      exact List.mem_singleton_self _
  · rintro ⟨⟨before, next, after, rfl, hquiet⟩, hstep⟩
    refine ⟨before, next, after ++ [e], by rw [List.append_assoc, List.cons_append], ?_⟩
    rw [List.mem_append, not_or, List.mem_singleton]
    exact ⟨hquiet, fun h => hstep h.symm⟩

/-- After a step, the next is not the first. -/
theorem not_stepping (log : List Happening) : ¬ Fresh (log ++ [.stepping]) := by
  rw [snoc_iff (by simp)]
  exact fun h => h.2 rfl

end Fresh

/-! ## The survey -/

/-- A step that is about to be made: the core, and what has happened before. -/
structure Sighting (κ : Type) where
  core : κ
  past : List Happening

/-- A monitor that writes down everything, and at each step takes down the core
too. -/
structure Survey (κ ω : Type) where
  inner : ω
  log : List Happening := []
  sightings : List (Sighting κ) := []

variable {κ γ ι ω : Type}

instance [Monitor ω κ Happening] : Monitor (Survey κ ω) κ Happening where
  hear w core what :=
    { inner := Monitor.hear w.inner core what
      log := w.log ++ [what]
      sightings :=
        match what with
        | .stepping => w.sightings ++ [⟨core, w.log⟩]
        | _ => w.sightings }

namespace Driver

/-- What the driver has been through. -/
def past (d : Driver κ γ ι (Survey κ ω)) : List Happening := d.monitor.log

/-- The steps it has made. -/
def sightings (d : Driver κ γ ι (Survey κ ω)) : List (Sighting κ) := d.monitor.sightings

/-- While the driver runs or is paused, the mark is set if and only if the next
step is the first since the debugger was left. -/
def Marked (d : Driver κ γ ι (Survey κ ω)) : Prop :=
  d.state = .running ∨ d.state = .paused → (d.passBreakpoint = true ↔ Fresh d.past)

variable {d d' : Driver κ γ ι (Survey κ ω)} {s : State}

namespace Marked

theorem new (core : κ) (governor : γ) (input : ι) (monitor : ω) (config : Config) :
    Marked (Driver.new core governor input ({ inner := monitor } : Survey κ ω) config) := by
  intro _
  exact iff_of_false Bool.false_ne_true Fresh.not_nil

/-- What is told of neither a departure nor a step leaves the mark right. -/
theorem heard (h : Marked d) (hstate : d'.state = d.state)
    (hpass : d'.passBreakpoint = d.passBreakpoint) {what : Happening}
    (hpast : d'.past = d.past ++ [what]) (hmoved : ∀ next, what ≠ .moved .stepping next)
    (hstep : what ≠ .stepping) : Marked d' := by
  intro hlive
  rw [hstate] at hlive
  rw [hpass, hpast, Fresh.snoc_iff hmoved, h hlive]
  exact (and_iff_left hstep).symm

variable [Monitor ω κ Happening]

theorem aside (h : Marked d) {what : Happening} (haside : what.isAside = true) :
    Marked (d.tell what) := by
  refine h.heard rfl rfl rfl (fun next heq => ?_) (fun heq => ?_)
  · rw [heq] at haside
    cases haside
  · rw [heq] at haside
    cases haside

/-- The mark is set on leaving the debugger, and kept on leaving anything
else. -/
theorem transition (h : Marked d) (event : Event) : Marked (d.transition event).1 := by
  rcases transition_cases (d := d) event with ⟨_, hsame⟩ | ⟨next, hon, hmoved⟩
  · rw [hsame]
    exact h
  · rw [hmoved]
    intro hlive
    have hlive : next = .running ∨ next = .paused := hlive
    show (d.passBreakpoint || decide (d.state = .stepping ∧ next ≠ .stopped)) = true ↔
      Fresh (d.past ++ [.moved d.state next])
    by_cases hstepping : d.state = .stepping
    · have hnext : next ≠ .stopped := by
        rintro rfl
        rcases hlive with h | h <;> cases h
      rw [hstepping]
      refine iff_of_true ?_ (Fresh.moved d.past next)
      rw [decide_eq_true ⟨rfl, hnext⟩, Bool.or_true]
    · -- the invariant held before, since the driver was live then too
      have hbefore := live_of_on hon hstepping
      have hkept : ∀ after, Happening.moved d.state next ≠ .moved .stepping after := by
        intro after heq
        exact hstepping (Happening.moved.inj heq).1
      rw [decide_eq_false (fun hboth => hstepping hboth.1), Bool.or_false, h hbefore,
        Fresh.snoc_iff hkept]
      exact (and_iff_left Happening.noConfusion).symm

variable [Core κ]

/-- The end of a tick takes no mark away. -/
theorem endTick (h : Marked d) : Marked d.endTick := by
  have hended : Marked ({ d with tickCycles := 0 }.tell .tickEnded) :=
    h.heard rfl rfl rfl (fun _ => Happening.noConfusion) Happening.noConfusion
  rcases endTick_cases (d := d) with ⟨_, htick⟩ | ⟨byte, _, htick⟩
  · rw [htick]
    exact hended
  · rw [htick]
    exact hended.heard rfl rfl rfl (fun _ => Happening.noConfusion) Happening.noConfusion

/-- A running machine loses the mark with its step, and the debugger needs
none. -/
theorem stepCore (h : d.state = .running → d.passBreakpoint = false) (hlive : d.state ≠ .paused) :
    Marked d.stepCore.1 := by
  intro hstate
  rw [stepCore_state] at hstate
  have hpass : d.passBreakpoint = false := by
    rcases hstate with hrunning | hpaused
    · exact h hrunning
    · exact absurd hpaused hlive
  have hpast : d.stepCore.1.past =
      d.past ++ [.stepping] ++ [.stepped (Core.step d.core).fault?] := by
    rw [stepCore_eq]
    rfl
  rw [stepCore_passBreakpoint, hpass, hpast]
  refine iff_of_false Bool.false_ne_true fun hfresh => ?_
  rw [Fresh.snoc_iff fun _ => Happening.noConfusion] at hfresh
  exact Fresh.not_stepping _ hfresh.1

/-- Every move keeps the mark right. -/
theorem move (h : Marked d) (hmove : Move s d d') : Marked d' := by
  cases hmove with
  | governor => exact h
  | input => exact h
  | aside _ haside => exact h.aside haside
  | transition => exact h.transition _
  | endTick => exact h.endTick
  | run _ hrunning =>
    refine stepCore (fun _ => rfl) fun hpaused => ?_
    rw [show d.state = .paused from hpaused] at hrunning
    cases hrunning
  | stop =>
    have htold : Marked (d.tell .breakpointHit) :=
      h.heard rfl rfl rfl (fun _ => Happening.noConfusion) Happening.noConfusion
    exact htold.transition .breakpointHit
  | debug _ hstepping =>
    refine stepCore (fun hrunning => ?_) fun hpaused => ?_
    · rw [hstepping] at hrunning
      cases hrunning
    · rw [hstepping] at hpaused
      cases hpaused

variable [Governor γ] [Input ι]

theorem underAll (h : Marked d) (deeds : List (Deed κ)) : Marked (d.underAll deeds) := by
  induction deeds generalizing d with
  | nil => exact h
  | cons deed deeds ih =>
    refine ih (keeps_under (P := Marked) (fun _ _ => True) ?_ ?_ ?_ ?_ ?_ h trivial)
    · intro s d d' h hmove
      exact h.move hmove
    · intro d event h _
      exact h.transition event
    · intro d debugger h _
      exact h
    · intro d h
      exact h
    · intro d core h _
      exact h

end Marked

/-! ## Breakpoints -/

/-- The steps made on the way to `d'` at a breakpoint of `d`, if any, are first
ones. -/
def StepsFresh [Core κ] (d d' : Driver κ γ ι (Survey κ ω)) : Prop :=
  ∃ news, d'.sightings = d.sightings ++ news ∧
    ∀ sight ∈ news, d.debugger.shouldBreak (Core.pc sight.core) = true → Fresh sight.past

section Sightings

variable [Monitor ω κ Happening]

/-- Only steps are sighted. -/
theorem sightings_tell {what : Happening} (hstep : what ≠ .stepping) :
    (d.tell what).sightings = d.sightings := by
  cases what with
  | stepping => exact absurd rfl hstep
  | _ => rfl

theorem sightings_transition (event : Event) :
    (d.transition event).1.sightings = d.sightings := by
  rcases transition_cases (d := d) event with ⟨_, hsame⟩ | ⟨next, _, hmoved⟩
  · rw [hsame]
  · rw [hmoved]
    rfl

variable [Core κ]

theorem sightings_endTick : d.endTick.sightings = d.sightings := by
  rcases endTick_cases (d := d) with ⟨_, htick⟩ | ⟨byte, _, htick⟩
  · rw [htick]
    rfl
  · rw [htick]
    rfl

/-- A step is seen, with what has happened before it. -/
theorem sightings_stepCore :
    d.stepCore.1.sightings = d.sightings ++ [⟨d.core, d.past⟩] := by
  rw [stepCore_eq]
  rfl

end Sightings

namespace StepsFresh

variable [Core κ] {e : Driver κ γ ι (Survey κ ω)}

theorem refl (d : Driver κ γ ι (Survey κ ω)) : StepsFresh d d :=
  ⟨[], (List.append_nil _).symm, fun _ hmem => absurd hmem List.not_mem_nil⟩

theorem of_sightings (h : StepsFresh e d) (hsame : d'.sightings = d.sightings) :
    StepsFresh e d' := by
  unfold StepsFresh
  rw [hsame]
  exact h

variable [Monitor ω κ Happening]

/-- Of all moves of a tick that began running, only the step of a running
machine adds a sighting; at a breakpoint it takes the mark, and the mark is set
for a first step only. -/
theorem move (h : StepsFresh e d) (hmarked : Marked d) (hedits : d.debugger = e.debugger)
    (hmove : Move .running d d') : StepsFresh e d' := by
  cases hmove with
  | governor => exact h.of_sightings rfl
  | input => exact h.of_sightings rfl
  | aside _ haside =>
    refine h.of_sightings (sightings_tell fun hstep => ?_)
    rw [hstep] at haside
    cases haside
  | transition => exact h.of_sightings (sightings_transition _)
  | endTick => exact h.of_sightings sightings_endTick
  | run _ hrunning hpass =>
    obtain ⟨news, hnews, hfresh⟩ := h
    refine ⟨news ++ [⟨d.core, d.past⟩], ?_, ?_⟩
    · rw [sightings_stepCore, ← List.append_assoc, ← hnews]
      rfl
    · intro sight hmem hbreak
      rcases List.mem_append.mp hmem with hmem | hmem
      · exact hfresh sight hmem hbreak
      · obtain rfl := List.mem_singleton.mp hmem
        rw [← hedits] at hbreak
        rcases hpass with hpass | hclear
        · exact (hmarked (.inl hrunning)).mp hpass
        · rw [hclear] at hbreak
          cases hbreak
  | stop =>
    refine h.of_sightings ?_
    rw [sightings_transition, sightings_tell Happening.noConfusion]

variable [Governor γ] [Input ι]

/-- The steps of a tick are all fresh. -/
theorem performWithin (hmarked : Marked d) (hrunning : d.state = .running) (limit : Nat) :
    StepsFresh d (d.performWithin limit).1 := by
  have hmoves := moves_performWithin limit d
  rw [hrunning] at hmoves
  have hkept : Marked (d.performWithin limit).1 ∧
      (d.performWithin limit).1.debugger = d.debugger ∧
        StepsFresh d (d.performWithin limit).1 := by
    refine hmoves.keeps (P := fun d' => Marked d' ∧ d'.debugger = d.debugger ∧ StepsFresh d d')
      ?_ ⟨hmarked, rfl, .refl d⟩
    rintro d₁ d₂ ⟨hmarked, hedits, hsteps⟩ hmove
    exact ⟨hmarked.move hmove, hmove.debugger_eq.trans hedits, hsteps.move hmarked hedits hmove⟩
  exact hkept.2.2

end StepsFresh

/-- The debugger takes over from `c`, and finds everything as it was. -/
structure TakenOver (c : Driver κ γ ι ω) (r : Driver κ γ ι ω × Except Fault Unit) : Prop where
  result : r.2 = .ok ()
  state : r.1.state = .stepping
  core : r.1.core = c.core
  tickCycles : r.1.tickCycles = c.tickCycles
  totalCycles : r.1.totalCycles = c.totalCycles

variable [Core κ] [Monitor ω κ Happening]

/-- A loop at a breakpoint, without the mark. -/
theorem runSteps_at_breakpoint {c : Driver κ γ ι ω} (hrunning : c.state = .running)
    (hspent : ¬ c.spent = true) (hable : Core.canRun c.core = true)
    (hbreak : c.debugger.shouldBreak (Core.pc c.core) = true) (hpass : c.passBreakpoint = false)
    (more : Nat) :
    ∃ r, runSteps (more + 1) c = (r, .ok false) ∧ TakenOver c (r, .ok ()) := by
  have hcheck : (!(c.tell (.tested true)).passBreakpoint &&
      (c.tell (.tested true)).debugger.shouldBreak
        (Core.pc (c.tell (.tested true)).core)) = true := by
    show (!c.passBreakpoint && c.debugger.shouldBreak (Core.pc c.core)) = true
    rw [hpass, hbreak]
    rfl
  unfold runSteps testCore
  rw [if_neg hspent, hable]
  dsimp only
  have hthere : ({ c.tell (.tested true) with passBreakpoint := false }.tell
      .breakpointHit).state = .running := hrunning
  rw [if_pos hcheck, transition_breakpointHit hthere]
  exact ⟨_, rfl, rfl, rfl, rfl, rfl, rfl⟩

variable [Governor γ] [Input ι]

/-- Wherever a tick comes to a breakpoint without the mark, the debugger takes
over. -/
theorem takenOver_performWithin {d c : Driver κ γ ι ω} {steps limit : Nat}
    (hrunning : d.state = .running) (hdue : d.isDue.1 = true)
    (hcut : runSteps steps d.isDue.2 = (c, .ok false)) (hgoes : c.state = .running)
    (hable : Core.canRun c.core = true)
    (hbreak : c.debugger.shouldBreak (Core.pc c.core) = true)
    (hpass : c.passBreakpoint = false) (hlimit : steps < limit) :
    TakenOver c (d.performWithin limit) := by
  obtain ⟨hspent, hmore⟩ := runSteps_of_cut (d := d.isDue.2) hrunning hcut hgoes
  obtain ⟨more, rfl⟩ := Nat.exists_eq_add_of_lt hlimit
  obtain ⟨r, hloop, htaken⟩ := runSteps_at_breakpoint hgoes hspent hable hbreak hpass more
  unfold Driver.performWithin
  rw [hrunning]
  dsimp only
  rw [if_pos hdue]
  unfold performRunning
  rw [Nat.add_assoc, hmore, hloop]
  exact htaken

/-- No breakpoint is run over from here. -/
structure NotRunOver (d : Driver κ γ ι (Survey κ ω)) : Prop where
  /-- A tick of a running machine makes a step at a breakpoint only if it is the
  first since the debugger was left. -/
  steps : d.state = .running → ∀ limit, StepsFresh d (d.performWithin limit).1
  /-- Wherever the tick is after some steps, with `c` what has become of the
  driver until then: if it would go on with a step at a breakpoint that is not
  the first, the debugger takes over. -/
  stops : d.state = .running → d.isDue.1 = true → ∀ steps c,
    runSteps steps d.isDue.2 = (c, .ok false) → c.state = .running →
    Core.canRun c.core = true → c.debugger.shouldBreak (Core.pc c.core) = true →
    ¬ Fresh c.past → ∀ limit, steps < limit → TakenOver c (d.performWithin limit)

/-- So a breakpoint is run over only by the step that leaves it. -/
theorem NotRunOver.of_marked {d : Driver κ γ ι (Survey κ ω)} (h : Marked d) : NotRunOver d where
  steps hrunning limit := .performWithin h hrunning limit
  stops := by
    intro hrunning hdue steps c hcut hgoes hable hbreak hfresh limit hlimit
    -- the invariant has come along to where the loop is cut off
    have hmoves := moves_runSteps (d := d.isDue.2) steps hrunning
    rw [hcut] at hmoves
    have hmarked : Marked c := hmoves.keeps (fun _ _ h hmove => h.move hmove) h
    have hpass : c.passBreakpoint = false := by
      rw [← Bool.not_eq_true, hmarked (.inl hgoes)]
      exact hfresh
    exact takenOver_performWithin hrunning hdue hcut hgoes hable hbreak hpass hlimit

end Driver

open Driver in
/-- **No breakpoint is run over**, whatever has been done to the driver and its
core. -/
theorem no_breakpoint_run_over [Core κ] [Governor γ] [Input ι] [Monitor ω κ Happening] (core : κ)
    (governor : γ) (input : ι) (monitor : ω) (config : Config) (deeds : List (Deed κ)) :
    let survey : Survey κ ω := { inner := monitor }
    NotRunOver ((Driver.new core governor input survey config).underAll deeds) :=
  .of_marked (Marked.underAll (.new core governor input monitor config) deeds)

/-- NOPs with a breakpoint at 1. The first tick stops there; the second, which
finds the machine running again after a pause, makes the step at 1 and those
behind it. -/
example :
    let core : I8080.Machine Empty (Recorder Byte Byte) :=
      .start (.new (.ofList [0, 0, 0, 0, 0, 0, 0, 0]) 0)
    let survey : Survey (I8080.Machine Empty (Recorder Byte Byte)) Unit := { inner := () }
    let config : Config := { cyclesPerTick := 12, debugMode := true }
    let d := (Driver.new core () () survey config).underAll
      [.op (.edit { breakpoints := [.ofAddress 1], debugMode := true }), .op .perform]
    let e := d.underAll [.op (.transition .togglePause), .op .perform,
      .op (.transition .togglePause), .op .perform]
    (d.state = .stepping ∧ d.sightings.map (Core.pc ·.core) = [0]) ∧
      e.state = .running ∧ e.sightings.map (Core.pc ·.core) = [0, 1, 2] := by
  decide

end Retrocore.Execution
