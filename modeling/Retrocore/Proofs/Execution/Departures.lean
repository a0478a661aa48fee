import Retrocore.Proofs.Disassembly.Executors
import Retrocore.Proofs.Execution.Moves
import Retrocore.Proofs.Operations

/-!
# Leaving a breakpoint

The mark that lets a breakpoint pass is set on leaving the debugger, for the
instruction under the breakpoint is to run now. What it lets pass is one step,
whatever that step does. Where a request is waiting that is let through, or a
processor is halted, the step does something else: it services the request, or
idles, and the machine may be back at the breakpoint before the instruction has
run.

A `Leg` is what a driver does between two breakpoints. `breakpoint_left_iff` says
what becomes of it on the 8080 and the Z80: as long as nobody else moves the
program counter, it begins with a step at the breakpoint; and as long as the
machine is left to run, the instruction there is run by that first step or not at
all. `breakpoint_left_unrun` is a run in which it is not.
-/

namespace Retrocore.Execution

/-! ## Legs -/

/-- A step, with what made it: a running machine or the debugger. -/
structure Stride (κ : Type) where
  core : κ
  state : State

/-- The steps from a breakpoint to the next, oldest first. -/
structure Leg (κ : Type) where
  /-- The core at the breakpoint. -/
  hit : κ
  strides : List (Stride κ) := []

namespace Leg

variable {κ : Type} [Core κ]

def stride (leg : Leg κ) (s : Stride κ) : Leg κ := { leg with strides := leg.strides ++ [s] }

/-- A step runs the instruction under the breakpoint; `Runs` says of a core that
its next step runs the instruction at the program counter. -/
def Executed (Runs : κ → Prop) (leg : Leg κ) : Prop :=
  ∃ s ∈ leg.strides, Core.pc s.core = Core.pc leg.hit ∧ Runs s.core

/-- There is a step, and the first is made at the breakpoint. -/
def Departs (leg : Leg κ) : Prop :=
  ∃ first rest, leg.strides = first :: rest ∧ Core.pc first.core = Core.pc leg.hit

/-- All steps are made by the running machine. -/
def Straight (leg : Leg κ) : Prop := ∀ s ∈ leg.strides, s.state = .running

/-- No step but the first is made at the breakpoint. -/
def Gone (leg : Leg κ) : Prop := ∀ s ∈ leg.strides.tail, Core.pc s.core ≠ Core.pc leg.hit

theorem Departs.stride {leg : Leg κ} (h : leg.Departs) (s : Stride κ) :
    (leg.stride s).Departs := by
  obtain ⟨first, rest, hstrides, hpc⟩ := h
  refine ⟨first, rest ++ [s], ?_, hpc⟩
  show leg.strides ++ [s] = _
  rw [hstrides, List.cons_append]

/-- The first step of a leg is made where it begins. -/
theorem Departs.of_first {leg : Leg κ} (hfirst : leg.strides = []) {s : Stride κ}
    (hpc : Core.pc s.core = Core.pc leg.hit) : (leg.stride s).Departs := by
  refine ⟨s, [], ?_, hpc⟩
  show leg.strides ++ [s] = _
  rw [hfirst, List.nil_append]

omit [Core κ] in
theorem Straight.of_stride {leg : Leg κ} {s : Stride κ} (h : (leg.stride s).Straight) :
    leg.Straight ∧ s.state = .running :=
  ⟨fun t ht => h t (List.mem_append_left _ ht),
    h s (List.mem_append_right _ (List.mem_singleton_self s))⟩

theorem Gone.of_none {leg : Leg κ} (hnone : leg.strides = []) : leg.Gone := by
  intro s hs
  rw [hnone] at hs
  cases hs

/-- The first step does not come back. -/
theorem Gone.of_first {leg : Leg κ} (hfirst : leg.strides = []) (s : Stride κ) :
    (leg.stride s).Gone := by
  intro t ht
  have ht : t ∈ (leg.strides ++ [s]).tail := ht
  rw [hfirst] at ht
  cases ht

theorem Gone.stride {leg : Leg κ} (h : leg.Gone) (hsome : leg.strides ≠ []) {s : Stride κ}
    (hpc : Core.pc s.core ≠ Core.pc leg.hit) : (leg.stride s).Gone := by
  intro t ht
  have ht : t ∈ (leg.strides ++ [s]).tail := ht
  rw [List.tail_append_of_ne_nil hsome] at ht
  rcases List.mem_append.mp ht with ht | ht
  · exact h t ht
  · obtain rfl := List.mem_singleton.mp ht
    exact hpc

/-- If no step comes back, only the first can have run the instruction. -/
theorem Departs.executed_iff {leg : Leg κ} (h : leg.Departs) (hgone : leg.Gone)
    (Runs : κ → Prop) : leg.Executed Runs ↔ ∃ first ∈ leg.strides.head?, Runs first.core := by
  obtain ⟨first, rest, hstrides, hpc⟩ := h
  unfold Gone at hgone
  unfold Executed
  rw [hstrides] at hgone ⊢
  constructor
  · rintro ⟨s, hs, hback, hruns⟩
    rcases List.mem_cons.mp hs with rfl | hs
    · exact ⟨s, rfl, hruns⟩
    · exact absurd hback (hgone s hs)
  · rintro ⟨s, hs, hruns⟩
    obtain rfl := Option.some.inj hs
    exact ⟨first, List.mem_cons_self, hpc, hruns⟩

end Leg

/-- A monitor that writes down the legs. -/
structure Itinerary (κ ω : Type) where
  inner : ω
  state : State := .running
  legs : List (Leg κ) := []
  /-- The leg that the driver is on, once it has come to a breakpoint. -/
  leg? : Option (Leg κ) := none

variable {κ γ ι ω : Type}

instance [Monitor ω κ Happening] : Monitor (Itinerary κ ω) κ Happening where
  hear w core what :=
    let w := { w with inner := Monitor.hear w.inner core what }
    match what with
    | .moved _ next => { w with state := next }
    | .breakpointHit => { w with legs := w.legs ++ w.leg?.toList, leg? := some ⟨core, []⟩ }
    | .stepping => { w with leg? := w.leg?.map (·.stride ⟨core, w.state⟩) }
    | _ => w

namespace Driver

def legs (d : Driver κ γ ι (Itinerary κ ω)) : List (Leg κ) := d.monitor.legs

def leg? (d : Driver κ γ ι (Itinerary κ ω)) : Option (Leg κ) := d.monitor.leg?

/-! ## What is done from outside -/

instance [Core κ] [Governor γ] [Input ι] [Monitor ω κ Happening] :
    Operable (Driver κ γ ι ω) (Deed κ) := ⟨under⟩

/-- Nobody else moves the program counter. -/
def KeepsPc [Core κ] (d : Driver κ γ ι ω) : Deed κ → Prop
  | .alter core => Core.pc core = Core.pc d.core
  | .op _ | .run _ => True

/-- Nobody else moves the program counter, takes the breakpoint away, or sends
the machine to the debugger. -/
def LeftAlone [Core κ] (d : Driver κ γ ι (Itinerary κ ω)) : Deed κ → Prop
  | .alter core => Core.pc core = Core.pc d.core
  | .op (.edit debugger) => ∀ leg ∈ d.leg?, debugger.shouldBreak (Core.pc leg.hit) = true
  | .op (.transition event) => event ≠ .breakpointHit
  | .op .perform | .op (.performWithin _) | .run _ => True

end Driver

/-- Requests and starts leave the program counter where it is. -/
structure StaysPut (κ : Type) [Core κ] : Prop where
  interrupt : ∀ (core : κ) (byte : Byte), Core.pc (Core.interrupt core byte) = Core.pc core
  start : ∀ core : κ, Core.pc (Core.start core) = Core.pc core

/-! ## The first step of a leg -/

namespace Driver

/-- The legs so far, and the one that the driver is on. -/
structure OnLeg [Core κ] (d : Driver κ γ ι (Itinerary κ ω)) : Prop where
  state : d.monitor.state = d.state
  departed : ∀ leg ∈ d.legs, leg.Departs
  /-- Until the first step, the core waits at the breakpoint; and the mark is set
  before the machine runs again. -/
  waiting : ∀ leg ∈ d.leg?, leg.strides = [] → Core.pc d.core = Core.pc leg.hit ∧
    (d.state = .running ∨ d.state = .paused → d.passBreakpoint = true)
  departing : ∀ leg ∈ d.leg?, leg.strides ≠ [] → leg.Departs

variable {d d' : Driver κ γ ι (Itinerary κ ω)} {s : State}

/-! ### What the itinerary says -/

section Noted

variable [Monitor ω κ Happening]

/-- The itinerary as it says where the driver is. -/
structure SameLegs (d d' : Driver κ γ ι (Itinerary κ ω)) : Prop where
  state : d'.monitor.state = d.monitor.state
  legs : d'.legs = d.legs
  leg? : d'.leg? = d.leg?

/-- Remarks are not written down. -/
theorem sameLegs_aside {what : Happening} (haside : what.isAside = true) :
    SameLegs d (d.tell what) := by
  cases what with
  | tested | ignoredRequest | screen | debugScreen => exact ⟨rfl, rfl, rfl⟩
  | _ => cases haside

variable [Core κ]

theorem sameLegs_endTick : SameLegs d d.endTick := by
  rcases endTick_cases (d := d) with ⟨_, htick⟩ | ⟨byte, _, htick⟩
  · rw [htick]
    exact ⟨rfl, rfl, rfl⟩
  · rw [htick]
    exact ⟨rfl, rfl, rfl⟩

/-- The end of a tick requests an interrupt at most. -/
theorem pc_endTick (hput : StaysPut κ) : Core.pc d.endTick.core = Core.pc d.core := by
  rcases endTick_cases (d := d) with ⟨_, htick⟩ | ⟨byte, _, htick⟩
  · rw [htick]
    rfl
  · rw [htick]
    exact hput.interrupt d.core byte

/-- A step is added to the leg that the driver is on. -/
theorem leg?_stepCore :
    d.stepCore.1.leg? = d.leg?.map (·.stride ⟨d.core, d.monitor.state⟩) := by
  rw [stepCore_eq]
  rfl

/-- A leg after a step is one before it, with the step. -/
theorem leg_of_stepCore {leg' : Leg κ} (h : leg' ∈ d.stepCore.1.leg?) :
    ∃ leg ∈ d.leg?, leg' = leg.stride ⟨d.core, d.monitor.state⟩ := by
  rw [leg?_stepCore] at h
  obtain ⟨leg, hleg, rfl⟩ := Option.map_eq_some_iff.mp h
  exact ⟨leg, hleg, rfl⟩

theorem legs_stepCore : d.stepCore.1.legs = d.legs := by
  rw [stepCore_eq]
  rfl

theorem noted_stepCore : d.stepCore.1.monitor.state = d.monitor.state := by
  rw [stepCore_eq]
  rfl

end Noted

namespace OnLeg

variable [Core κ]

theorem new (core : κ) (governor : γ) (input : ι) (monitor : ω) (config : Config) :
    OnLeg (Driver.new core governor input ({ inner := monitor } : Itinerary κ ω) config) where
  state := rfl
  departed _ hmem := absurd hmem List.not_mem_nil
  waiting _ hmem := by cases hmem
  departing _ hmem := by cases hmem

theorem frame (h : OnLeg d) (hsame : SameLegs d d') (hpc : Core.pc d'.core = Core.pc d.core)
    (hstate : d'.state = d.state) (hpass : d'.passBreakpoint = d.passBreakpoint) :
    OnLeg d' where
  state := by rw [hsame.state, hstate, h.state]
  departed := by
    rw [hsame.legs]
    exact h.departed
  waiting := by
    rw [hsame.leg?, hpc, hstate, hpass]
    exact h.waiting
  departing := by
    rw [hsame.leg?]
    exact h.departing

variable [Monitor ω κ Happening]

/-- The mark is set on leaving the debugger, and kept from then on. -/
theorem transition (h : OnLeg d) (event : Event) : OnLeg (d.transition event).1 := by
  rcases transition_cases (d := d) event with ⟨_, hsame⟩ | ⟨next, hon, hmoved⟩
  · rw [hsame]
    exact h
  · rw [hmoved]
    refine ⟨rfl, h.departed, ?_, h.departing⟩
    intro leg hleg hnone
    obtain ⟨hpc, hmark⟩ := h.waiting leg hleg hnone
    refine ⟨hpc, fun hlive => ?_⟩
    have hlive : next = .running ∨ next = .paused := hlive
    show (d.passBreakpoint || decide (d.state = .stepping ∧ next ≠ .stopped)) = true
    -- it is set now or, on the way from a pause, has been set before
    by_cases hstepping : d.state = .stepping
    · have hnext : next ≠ .stopped := by
        rintro rfl
        rcases hlive with h | h <;> cases h
      rw [decide_eq_true ⟨hstepping, hnext⟩, Bool.or_true]
    · rw [hmark (live_of_on hon hstepping), Bool.true_or]

/-- The first step is made where the core waits. -/
theorem stepCore (h : OnLeg d) (pass : Bool) :
    OnLeg { d with passBreakpoint := pass }.stepCore.1 := by
  have hdeparts : ∀ leg ∈ d.leg?, (leg.stride ⟨d.core, d.monitor.state⟩).Departs := by
    intro leg hleg
    by_cases hnone : leg.strides = []
    · exact .of_first hnone (h.waiting leg hleg hnone).1
    · exact (h.departing leg hleg hnone).stride _
  refine ⟨?_, ?_, ?_, ?_⟩
  · rw [noted_stepCore, stepCore_state]
    exact h.state
  · rw [legs_stepCore]
    exact h.departed
  · intro leg' hleg' hnone
    obtain ⟨leg, _, rfl⟩ := leg_of_stepCore hleg'
    exact absurd hnone (List.append_ne_nil_of_right_ne_nil _ (List.cons_ne_nil _ _))
  · intro leg' hleg' _
    obtain ⟨leg, hleg, rfl⟩ := leg_of_stepCore hleg'
    exact hdeparts leg hleg

/-- A breakpoint without the mark: there has been a step since the last. -/
theorem stop (h : OnLeg d) (hrunning : d.state = .running) (hpass : d.passBreakpoint = false) :
    OnLeg ((d.tell .breakpointHit).transition .breakpointHit).1 := by
  rw [transition_breakpointHit (d := d.tell .breakpointHit) hrunning]
  refine ⟨rfl, ?_, ?_, ?_⟩
  · intro leg hleg
    have hleg : leg ∈ d.legs ++ d.leg?.toList := hleg
    rcases List.mem_append.mp hleg with hleg | hleg
    · exact h.departed leg hleg
    · -- a leg without a step would have the mark left
      rw [Option.mem_toList] at hleg
      refine h.departing leg hleg fun hnone => ?_
      have hmark := (h.waiting leg hleg hnone).2 (.inl hrunning)
      rw [hpass] at hmark
      cases hmark
  · intro leg hleg _
    obtain rfl := Option.some.inj hleg
    refine ⟨rfl, fun hlive => ?_⟩
    rcases hlive with h | h <;> cases h
  · intro leg hleg hsome
    obtain rfl := Option.some.inj hleg
    exact absurd rfl hsome

/-- Every move keeps to the itinerary. -/
theorem move (h : OnLeg d) (hput : StaysPut κ) (hmove : Move s d d') : OnLeg d' := by
  cases hmove with
  | governor => exact h.frame ⟨rfl, rfl, rfl⟩ rfl rfl rfl
  | input => exact h.frame ⟨rfl, rfl, rfl⟩ rfl rfl rfl
  | aside _ haside => exact h.frame (sameLegs_aside haside) rfl rfl rfl
  | transition => exact h.transition _
  | endTick => exact h.frame sameLegs_endTick (pc_endTick hput) endTick_state endTick_passBreakpoint
  | run => exact h.stepCore false
  | stop _ hrunning hpass => exact h.stop hrunning hpass
  | debug => exact h.stepCore d.passBreakpoint

variable [Governor γ] [Input ι]

theorem under (h : OnLeg d) (hput : StaysPut κ) (deed : Deed κ) (hkeeps : d.KeepsPc deed) :
    OnLeg (d.under deed) := by
  refine keeps_under (P := OnLeg) KeepsPc ?_ ?_ ?_ ?_ ?_ h hkeeps
  · intro s d d' h hmove
    exact h.move hput hmove
  · intro d event h _
    exact h.transition event
  · intro d debugger h _
    exact h.frame ⟨rfl, rfl, rfl⟩ rfl rfl rfl
  · intro d h
    exact h.frame ⟨rfl, rfl, rfl⟩ (hput.start d.core) rfl rfl
  · intro d core h hpc
    exact h.frame ⟨rfl, rfl, rfl⟩ hpc rfl rfl

theorem underAll (h : OnLeg d) (hput : StaysPut κ) (deeds : List (Deed κ))
    (hkeeps : Operable.Each KeepsPc d deeds) : OnLeg (d.underAll deeds) :=
  Operable.after_keeps (fun _ deed h hkeeps => h.under hput deed hkeeps) deeds d h hkeeps

end OnLeg

/-! ## The other steps of a leg -/

/-- Only a breakpoint leads to the debugger. -/
theorem on_ne_stepping {before next : State} {event : Event} (hon : before.on event = some next)
    (hevent : event ≠ .breakpointHit) : next ≠ .stepping := by
  rintro rfl
  cases event with
  | breakpointHit => exact hevent rfl
  | togglePause => cases before <;> cases hon
  | stop => cases before <;> cases hon
  | «continue» => cases before <;> cases hon

/-- No leg of the running machine has come back to its breakpoint but at its
end. -/
structure NotBack [Core κ] (d : Driver κ γ ι (Itinerary κ ω)) : Prop where
  onLeg : OnLeg d
  gone : ∀ leg ∈ d.legs, leg.Straight → leg.Gone
  /-- The breakpoint is still in place. -/
  armed : ∀ leg ∈ d.leg?, d.debugger.shouldBreak (Core.pc leg.hit) = true
  /-- After the first step the mark is used up, and nothing sets it again. -/
  going : ∀ leg ∈ d.leg?, leg.Straight → leg.strides ≠ [] →
    leg.Gone ∧ d.state ≠ .stepping ∧ d.passBreakpoint = false

namespace NotBack

variable [Core κ]

theorem new (core : κ) (governor : γ) (input : ι) (monitor : ω) (config : Config) :
    NotBack (Driver.new core governor input ({ inner := monitor } : Itinerary κ ω) config) where
  onLeg := .new core governor input monitor config
  gone _ hmem := absurd hmem List.not_mem_nil
  armed _ hmem := by cases hmem
  going _ hmem := by cases hmem

theorem frame (h : NotBack d) (hsame : SameLegs d d') (hpc : Core.pc d'.core = Core.pc d.core)
    (hstate : d'.state = d.state) (hpass : d'.passBreakpoint = d.passBreakpoint)
    (hedits : d'.debugger = d.debugger) : NotBack d' where
  onLeg := h.onLeg.frame hsame hpc hstate hpass
  gone := by
    rw [hsame.legs]
    exact h.gone
  armed := by
    rw [hsame.leg?, hedits]
    exact h.armed
  going := by
    rw [hsame.leg?, hstate, hpass]
    exact h.going

variable [Monitor ω κ Happening]

/-- No other transition leads to the debugger. -/
theorem transition (h : NotBack d) {event : Event} (hevent : event ≠ .breakpointHit) :
    NotBack (d.transition event).1 := by
  rcases transition_cases (d := d) event with ⟨_, hsame⟩ | ⟨next, hon, hmoved⟩
  · rw [hsame]
    exact h
  · have honLeg := h.onLeg.transition event
    rw [hmoved] at honLeg ⊢
    refine ⟨honLeg, h.gone, h.armed, ?_⟩
    intro leg hleg hstraight hsome
    obtain ⟨hgone, hstate, hpass⟩ := h.going leg hleg hstraight hsome
    refine ⟨hgone, on_ne_stepping hon hevent, ?_⟩
    show (d.passBreakpoint || decide (d.state = .stepping ∧ next ≠ .stopped)) = false
    rw [hpass, decide_eq_false fun hboth => hstate hboth.1]
    rfl

/-- A running machine steps at the breakpoint only with the mark, which it has
only for its first step. -/
theorem run (h : NotBack d) (hrunning : d.state = .running)
    (hpass : d.passBreakpoint = true ∨ d.debugger.shouldBreak (Core.pc d.core) = false) :
    NotBack { d with passBreakpoint := false }.stepCore.1 := by
  refine ⟨h.onLeg.stepCore false, ?_, ?_, ?_⟩
  · rw [legs_stepCore]
    exact h.gone
  · intro leg' hleg'
    obtain ⟨leg, hleg, rfl⟩ := leg_of_stepCore hleg'
    rw [stepCore_debugger]
    exact h.armed leg hleg
  · intro leg' hleg' hstraight _
    obtain ⟨leg, hleg, rfl⟩ := leg_of_stepCore hleg'
    rw [stepCore_state, stepCore_passBreakpoint]
    refine ⟨?_, ?_, rfl⟩
    · by_cases hnone : leg.strides = []
      · exact .of_first hnone _
      · -- back at the breakpoint, which is in place still, it would have stopped
        obtain ⟨hgone, _, hunmarked⟩ := h.going leg hleg hstraight.of_stride.1 hnone
        refine hgone.stride hnone fun hback => ?_
        have hbreak := h.armed leg hleg
        rw [← hback] at hbreak
        rcases hpass with hpass | hclear
        · rw [hunmarked] at hpass
          cases hpass
        · rw [show d.debugger.shouldBreak (Core.pc d.core) = true from hbreak] at hclear
          cases hclear
    · show d.state ≠ .stepping
      rw [hrunning]
      exact State.noConfusion

/-- With a step of the debugger the leg is none of the running machine any
longer. -/
theorem debug (h : NotBack d) (hstepping : d.state = .stepping) : NotBack d.stepCore.1 := by
  refine ⟨h.onLeg.stepCore d.passBreakpoint, ?_, ?_, ?_⟩
  · rw [legs_stepCore]
    exact h.gone
  · intro leg' hleg'
    obtain ⟨leg, hleg, rfl⟩ := leg_of_stepCore hleg'
    rw [stepCore_debugger]
    exact h.armed leg hleg
  · intro leg' hleg' hstraight _
    obtain ⟨leg, hleg, rfl⟩ := leg_of_stepCore hleg'
    have hrunning : d.monitor.state = .running := hstraight.of_stride.2
    rw [h.onLeg.state, hstepping] at hrunning
    cases hrunning

/-- At the breakpoint the leg is complete, and the next begins. -/
theorem stop (h : NotBack d) (hrunning : d.state = .running) (hpass : d.passBreakpoint = false)
    (hbreak : d.debugger.shouldBreak (Core.pc d.core) = true) :
    NotBack ((d.tell .breakpointHit).transition .breakpointHit).1 := by
  have honLeg := h.onLeg.stop hrunning hpass
  rw [transition_breakpointHit (d := d.tell .breakpointHit) hrunning] at honLeg ⊢
  refine ⟨honLeg, ?_, ?_, ?_⟩
  · intro leg hleg hstraight
    have hleg : leg ∈ d.legs ++ d.leg?.toList := hleg
    rcases List.mem_append.mp hleg with hleg | hleg
    · exact h.gone leg hleg hstraight
    · rw [Option.mem_toList] at hleg
      by_cases hnone : leg.strides = []
      · exact .of_none hnone
      · exact (h.going leg hleg hstraight hnone).1
  · intro leg hleg
    obtain rfl := Option.some.inj hleg
    exact hbreak
  · intro leg hleg _ hsome
    obtain rfl := Option.some.inj hleg
    exact absurd rfl hsome

theorem move (h : NotBack d) (hput : StaysPut κ) (hmove : Move s d d') : NotBack d' := by
  cases hmove with
  | governor => exact h.frame ⟨rfl, rfl, rfl⟩ rfl rfl rfl rfl
  | input => exact h.frame ⟨rfl, rfl, rfl⟩ rfl rfl rfl rfl
  | aside _ haside => exact h.frame (sameLegs_aside haside) rfl rfl rfl rfl
  | transition _ hrequest => exact h.transition hrequest
  | endTick =>
    exact h.frame sameLegs_endTick (pc_endTick hput) endTick_state endTick_passBreakpoint
      endTick_debugger
  | run _ hrunning hpass => exact h.run hrunning hpass
  | stop _ hrunning hpass hbreak => exact h.stop hrunning hpass hbreak
  | debug _ hstepping => exact h.debug hstepping

variable [Governor γ] [Input ι]

theorem under (h : NotBack d) (hput : StaysPut κ) (deed : Deed κ) (halone : d.LeftAlone deed) :
    NotBack (d.under deed) := by
  refine keeps_under (P := NotBack) LeftAlone ?_ ?_ ?_ ?_ ?_ h halone
  · intro s d d' h hmove
    exact h.move hput hmove
  · intro d event h hevent
    exact h.transition hevent
  · intro d debugger h harmed
    exact ⟨h.onLeg.frame ⟨rfl, rfl, rfl⟩ rfl rfl rfl, h.gone, harmed, h.going⟩
  · intro d h
    exact h.frame ⟨rfl, rfl, rfl⟩ (hput.start d.core) rfl rfl rfl
  · intro d core h hpc
    exact h.frame ⟨rfl, rfl, rfl⟩ hpc rfl rfl rfl

theorem underAll (h : NotBack d) (hput : StaysPut κ) (deeds : List (Deed κ))
    (halone : Operable.Each LeftAlone d deeds) : NotBack (d.underAll deeds) :=
  Operable.after_keeps (fun _ deed h halone => h.under hput deed halone) deeds d h halone

end NotBack

end Driver

/-! ## Breakpoints that are left -/

/-- How drivers of such a core leave a breakpoint. `Runs` says of a core that its
next step runs the instruction at the program counter, and `Ready` when it
does. -/
structure Departures (κ : Type) [Core κ] (Runs Ready : κ → Prop) : Prop where
  /-- If nobody else moves the program counter, there is a step between two
  breakpoints, and the first is made at the one that is left. -/
  departs : ∀ {γ ι ω : Type} [Governor γ] [Input ι] [Monitor ω κ Happening] (core : κ)
    (governor : γ) (input : ι) (monitor : ω) (config : Config) (deeds : List (Deed κ)),
    let itinerary : Itinerary κ ω := { inner := monitor }
    let d := Driver.new core governor input itinerary config
    Operable.Each Driver.KeepsPc d deeds → ∀ leg ∈ (d.underAll deeds).legs, leg.Departs
  /-- So if the core is ready then, it runs the instruction there. -/
  executed : ∀ {γ ι ω : Type} [Governor γ] [Input ι] [Monitor ω κ Happening] (core : κ)
    (governor : γ) (input : ι) (monitor : ω) (config : Config) (deeds : List (Deed κ)),
    let itinerary : Itinerary κ ω := { inner := monitor }
    let d := Driver.new core governor input itinerary config
    Operable.Each Driver.KeepsPc d deeds → ∀ leg ∈ (d.underAll deeds).legs,
      (∃ first ∈ leg.strides.head?, Ready first.core) → leg.Executed Runs
  /-- If, besides, the machine is left to run, the instruction is run then or
  not at all. -/
  executed_iff : ∀ {γ ι ω : Type} [Governor γ] [Input ι] [Monitor ω κ Happening] (core : κ)
    (governor : γ) (input : ι) (monitor : ω) (config : Config) (deeds : List (Deed κ)),
    let itinerary : Itinerary κ ω := { inner := monitor }
    let d := Driver.new core governor input itinerary config
    Operable.Each Driver.LeftAlone d deeds → ∀ leg ∈ (d.underAll deeds).legs, leg.Straight →
      (leg.Executed Runs ↔ ∃ first ∈ leg.strides.head?, Ready first.core)

/-- That nobody else moves the program counter is all there is to it. -/
theorem Departures.of_staysPut {κ : Type} [Core κ] {Runs Ready : κ → Prop} (hput : StaysPut κ)
    (hready : ∀ core, Runs core ↔ Ready core) : Departures κ Runs Ready where
  departs core governor input monitor config deeds hkeeps leg hleg :=
    (Driver.OnLeg.underAll (.new core governor input monitor config) hput deeds hkeeps).departed
      leg hleg
  executed := by
    intro γ ι ω _ _ _ core governor input monitor config deeds _ d hkeeps leg hleg hfirst
    have honLeg : Driver.OnLeg (d.underAll deeds) :=
      .underAll (.new core governor input monitor config) hput deeds hkeeps
    obtain ⟨first, rest, hstrides, hpc⟩ := honLeg.departed leg hleg
    rw [hstrides] at hfirst
    obtain ⟨s, hs, hs'⟩ := hfirst
    obtain rfl := Option.some.inj hs
    refine ⟨first, ?_, hpc, (hready first.core).mpr hs'⟩
    rw [hstrides]
    exact List.mem_cons_self
  executed_iff := by
    intro γ ι ω _ _ _ core governor input monitor config deeds _ d halone leg hleg hstraight
    have hnotBack : Driver.NotBack (d.underAll deeds) :=
      .underAll (.new core governor input monitor config) hput deeds halone
    have hdeparts := hnotBack.onLeg.departed leg hleg
    rw [hdeparts.executed_iff (hnotBack.gone leg hleg hstraight)]
    simp only [hready]

/-- **A breakpoint that is left**: the instruction under it is run by the first
step, if the core is ready for an instruction then, and otherwise by none. -/
theorem breakpoint_left_iff (μ δ : Type) [Mapper μ Byte] [Observer δ Byte Byte] :
    Departures (I8080.Machine μ δ) (fun m => m.action = .run) (fun m => m.Ready) ∧
      Departures (Z80.Machine μ δ) (fun m => m.action = .run ∧ ∃ decoded, m.fetched = .ok decoded)
        (fun m => m.Ready ∧ ∃ decoded, m.fetched = .ok decoded) := by
  refine ⟨.of_staysPut ⟨fun _ _ => rfl, fun _ => rfl⟩ fun m => ?_,
    .of_staysPut ⟨fun _ _ => rfl, fun _ => rfl⟩ fun m => ?_⟩
  · exact I8080.Machine.action_eq_run_iff
  · exact and_congr_left' Z80.Machine.action_eq_run_iff

/-- A loop of two NOPs and a jump, with a breakpoint at the second NOP, once
around. -/
theorem breakpoint_left_iff_loop :
    let core : I8080.Machine Empty (Recorder Byte Byte) :=
      .start (.new (.ofList [0x00, 0x00, 0xc3, 0x00, 0x00]) 0)
    let itinerary : Itinerary (I8080.Machine Empty (Recorder Byte Byte)) Unit := { inner := () }
    let config : Config := { cyclesPerTick := 30, debugMode := true }
    let deeds : List (Deed (I8080.Machine Empty (Recorder Byte Byte))) :=
      [.op (.edit { breakpoints := [.ofAddress 1], debugMode := true }), .op .perform,
        .op (.transition .continue), .op .perform]
    let d := Driver.new core () () itinerary config
    Operable.Each Driver.LeftAlone d deeds ∧
      (d.underAll deeds).legs.map (Core.pc ·.hit) = [1] ∧
      ∀ leg ∈ (d.underAll deeds).legs, leg.Straight ∧ leg.Executed (·.action = .run) := by
  intro core itinerary config deeds d
  have halone : Operable.Each Driver.LeftAlone d deeds := by
    refine ⟨?_, trivial, Event.noConfusion, trivial, trivial⟩
    intro leg hleg
    cases hleg
  have hstraight : ∀ leg ∈ (d.underAll deeds).legs, ∀ s ∈ leg.strides, s.state = .running := by
    decide
  have hready : ∀ leg ∈ (d.underAll deeds).legs, ∃ first ∈ leg.strides.head?,
      first.core.halted = false ∧ first.core.inte = false := by
    decide
  refine ⟨halone, by decide, fun leg hleg => ⟨hstraight leg hleg, ?_⟩⟩
  obtain ⟨hi8080, -⟩ := breakpoint_left_iff Empty (Recorder Byte Byte)
  obtain ⟨first, hfirst, hhalted, hinte⟩ := hready leg hleg
  refine (hi8080.executed_iff core () () () config deeds halone leg hleg
    (hstraight leg hleg)).mpr ⟨first, hfirst, hhalted, fun h => ?_⟩
  rw [hinte] at h
  cases h

/-- EI and a NOP with a breakpoint, where a request is let through: the step that
leaves the breakpoint services it, the handler returns at once, and the driver is
back at the breakpoint without having run the NOP. -/
theorem breakpoint_left_unrun :
    let core : I8080.Machine Empty (Recorder Byte Byte) :=
      .start (.new (.ofList [0xfb, 0, 0, 0, 0, 0, 0, 0, 0xc9, 0, 0, 0, 0, 0, 0, 0]) 0)
    let itinerary : Itinerary (I8080.Machine Empty (Recorder Byte Byte)) Unit := { inner := () }
    let config : Config := { cyclesPerTick := 4, interruptByte := some 0xcf, debugMode := true }
    let deeds : List (Deed (I8080.Machine Empty (Recorder Byte Byte))) :=
      [.op (.edit { breakpoints := [.ofAddress 1], debugMode := true }), .op .perform, .op .perform,
        .op (.transition .continue), .op .perform, .op .perform, .op .perform]
    let d := Driver.new core () () itinerary config
    Operable.Each Driver.KeepsPc d deeds ∧
      (d.underAll deeds).legs.map (Core.pc ·.hit) = [1] ∧
      (d.underAll deeds).leg?.map (Core.pc ·.hit) = some 1 ∧
      (d.underAll deeds).legs.map (·.strides.map fun s => (Core.pc s.core, s.core.action)) =
        [[(1, .service 0xcf), (8, .run)]] ∧
      ∀ leg ∈ (d.underAll deeds).legs, ¬ leg.Executed (·.action = .run) := by
  intro core itinerary config deeds d
  refine ⟨⟨trivial, trivial, trivial, trivial, trivial, trivial, trivial, trivial⟩, by decide,
    by decide, by decide, ?_⟩
  have hnone : ∀ leg ∈ (d.underAll deeds).legs, ∀ s ∈ leg.strides,
      ¬ (Core.pc s.core = Core.pc leg.hit ∧ s.core.action = .run) := by
    decide
  rintro leg hleg ⟨s, hs, hpc, hruns⟩
  exact hnone leg hleg s hs ⟨hpc, hruns⟩

end Retrocore.Execution
