import Retrocore.Proofs.Execution.Ticks

/-!
# What lasts while a driver is driven

Three loops of the driver make steps: the one of a running machine, which a
breakpoint may cut short, the single step and the rest of a tick on behalf of
the debugger. They share the count of cycles spent of the tick, and a tick begun
by one may be ended by another, with pauses in between. Everything else that a
driver does concerns neither the core nor that count.

So a property of drivers lasts if the elementary actions keep it (`Lasting`): a
remark to the monitor, a step while there is budget left, the end of a tick that
is spent or whose core can run no further. `Lasting.applyAll` goes through the
loops and the states once for all such properties.
-/

namespace Retrocore.Execution

/-- What is said of neither a call on the core nor the end of a tick, nor of a
core that can run no further. -/
def Happening.isRemark : Happening → Bool
  | .tested able => able
  | .moved .. | .breakpointHit | .ignoredRequest | .screen _ | .debugScreen => true
  | .stepping | .stepped _ | .tickEnded | .interrupted _ => false

namespace Driver

variable {κ γ ι ω : Type}

/-- The current tick is not over yet. A budget of nothing is no budget. -/
def Resting (d : Driver κ γ ι ω) : Prop :=
  0 < d.config.cyclesPerTick → d.tickCycles < d.config.cyclesPerTick

variable {d : Driver κ γ ι ω}

theorem Resting.of_not_spent (h : ¬ d.spent = true) : d.Resting := fun _ => not_spent_iff.mp h

variable [Core κ] [Monitor ω κ Happening]

/-- Every tick begins with a count of zero. -/
theorem resting_endTick : d.endTick.Resting := by
  intro hpos
  rw [endTick_tickCycles]
  exact hpos

/-- A step that fails costs nothing. -/
theorem Resting.of_error {fault : Fault} (h : d.Resting) (hfault : d.stepCore.2 = .error fault) :
    d.stepCore.1.Resting := by
  have hfree : FreeRun.cost (Core.step d.core) = 0 := by
    rw [stepCore_eq] at hfault
    unfold FreeRun.cost
    cases hresult : (Core.step d.core).result with
    | error fault => rfl
    | ok n =>
      rw [hresult] at hfault
      cases hfault
  unfold Resting
  rw [stepCore_config, stepCore_tickCycles, hfree]
  exact h

/-- The elementary actions keep a property. -/
structure Lasting (P : Driver κ γ ι ω → Prop) : Prop where
  /-- The property is about the core, the cycles, the configuration and what the
  monitor makes of it all. -/
  frame : ∀ {d d' : Driver κ γ ι ω}, P d → d'.core = d.core → d'.monitor = d.monitor →
    d'.config = d.config → d'.tickCycles = d.tickCycles → d'.totalCycles = d.totalCycles → P d'
  remark : ∀ {d : Driver κ γ ι ω} {what : Happening}, P d → what.isRemark = true →
    P (d.tell what)
  step : ∀ {d : Driver κ γ ι ω}, P d → d.Resting → P d.stepCore.1
  endTick : ∀ {d : Driver κ γ ι ω}, P d → d.spent = true → P d.endTick
  stuck : ∀ {d : Driver κ γ ι ω}, P d → P (d.tell (.tested false))
  endStuck : ∀ {d : Driver κ γ ι ω}, P d → P (d.tell (.tested false)).endTick

/-- The property holds between two ticks or in the middle of one, but not at the
end of one. -/
structure Rests (P : Driver κ γ ι ω → Prop) (d : Driver κ γ ι ω) : Prop where
  holds : P d
  resting : d.Resting

namespace Lasting

variable {P : Driver κ γ ι ω → Prop}

theorem rests_frame (h : Lasting P) (hd : Rests P d) {d' : Driver κ γ ι ω}
    (hcore : d'.core = d.core) (hmonitor : d'.monitor = d.monitor)
    (hconfig : d'.config = d.config) (htick : d'.tickCycles = d.tickCycles)
    (htotal : d'.totalCycles = d.totalCycles) : Rests P d' := by
  refine ⟨h.frame hd.holds hcore hmonitor hconfig htick htotal, ?_⟩
  unfold Resting
  rw [hconfig, htick]
  exact hd.resting

/-- Remarks change nothing that is kept. -/
theorem rests_remark (h : Lasting P) (hd : Rests P d) {what : Happening}
    (hwhat : what.isRemark = true) : Rests P (d.tell what) :=
  ⟨h.remark hd.holds hwhat, hd.resting⟩

theorem rests_poll [Input ι] (h : Lasting P) (hd : Rests P d) (debugOnly : Bool) :
    Rests P (d.poll debugOnly).1 :=
  h.rests_frame hd rfl rfl rfl rfl rfl

theorem rests_transition (h : Lasting P) (hd : Rests P d) (event : Event) :
    Rests P (d.transition event).1 := by
  unfold transition
  cases d.state.on event with
  | none => exact hd
  | some next =>
    have htold : Rests P (d.tell (.moved d.state next)) := h.rests_remark hd rfl
    exact h.rests_frame htold rfl rfl rfl rfl rfl

/-- The end of a tick is a place to rest. -/
theorem rests_endTick (h : Lasting P) (hd : P d) (hspent : d.spent = true) :
    Rests P d.endTick :=
  ⟨h.endTick hd hspent, resting_endTick⟩

/-- The tick ends if it can. -/
theorem rests_settle (h : Lasting P) (hd : P d) :
    Rests P (if d.spent then d.endTick else d) := by
  split
  next hspent => exact h.rests_endTick hd hspent
  next hspent => exact ⟨hd, .of_not_spent hspent⟩

/-- A step within the budget, for better or worse. -/
theorem rests_stepCore (h : Lasting P) (hd : Rests P d) :
    P d.stepCore.1 ∧ ∀ fault, d.stepCore.2 = .error fault → Rests P d.stepCore.1 := by
  have hstep := h.step hd.holds hd.resting
  exact ⟨hstep, fun fault hfault => ⟨hstep, hd.resting.of_error hfault⟩⟩

/-! ## Loops -/

/-- The loop of a running machine, breakpoints and all. -/
theorem runSteps (h : Lasting P) (steps : Nat) {d : Driver κ γ ι ω} (hd : P d) :
    Rests P (Driver.runSteps steps d).1 := by
  induction steps generalizing d with
  | zero =>
    unfold Driver.runSteps
    split
    next hspent => exact h.rests_endTick hd hspent
    next hspent => exact ⟨hd, .of_not_spent hspent⟩
  | succ steps ih =>
    have hrests (hspent : ¬ d.spent = true) : Rests P d := ⟨hd, .of_not_spent hspent⟩
    have htested (hspent : ¬ d.spent = true) : Rests P (d.tell (.tested true)) :=
      h.rests_remark (hrests hspent) rfl
    -- the mark that lets one breakpoint pass is used up
    have hready (hspent : ¬ d.spent = true) : Rests P d.readied :=
      h.rests_frame (htested hspent) rfl rfl rfl rfl rfl
    cases d.round with
    | spent hspent hrun =>
      rw [hrun]
      exact h.rests_endTick hd hspent
    | ends hspent hrun =>
      rw [hrun]
      have hstuck : Rests P (d.tell (.tested false)) := ⟨h.stuck hd, (hrests hspent).resting⟩
      exact h.rests_transition hstuck .stop
    | waits _ hrun =>
      rw [hrun]
      exact ⟨h.endStuck hd, resting_endTick⟩
    | breaks hspent _ _ _ hrun =>
      rw [hrun]
      exact h.rests_transition (h.rests_remark (htested hspent) rfl) .breakpointHit
    | fails hspent _ hstep hrun =>
      rw [hrun]
      exact (h.rests_stepCore (hready hspent)).2 _ hstep
    | goes hspent _ _ hrun =>
      rw [hrun]
      exact ih (h.rests_stepCore (hready hspent)).1

/-- The rest of a tick on behalf of the debugger. -/
theorem finishSteps (h : Lasting P) (steps : Nat) {d : Driver κ γ ι ω} (hd : P d) :
    Rests P (Driver.finishSteps steps d).1 := by
  induction steps generalizing d with
  | zero => exact h.rests_settle hd
  | succ steps ih =>
    unfold Driver.finishSteps testCore
    split
    next hspent => exact h.rests_endTick hd hspent
    next hspent =>
      cases Core.canRun d.core with
      | false => exact ⟨h.endStuck hd, resting_endTick⟩
      | true =>
        dsimp only
        have htested : Rests P (d.tell (.tested true)) :=
          h.rests_remark ⟨hd, .of_not_spent hspent⟩ rfl
        obtain ⟨hstep, hfailed⟩ := h.rests_stepCore htested
        split
        next d₁ fault heq =>
          rw [heq] at hfailed
          exact hfailed fault rfl
        next d₁ heq =>
          rw [heq] at hstep
          exact ih hstep

/-- A single step, and the end of the tick if that was its last. -/
theorem singleStep (h : Lasting P) (hd : Rests P d) : Rests P d.singleStep.1 := by
  unfold Driver.singleStep testCore
  cases Core.canRun d.core with
  | false => exact h.rests_settle (h.stuck hd.holds)
  | true =>
    dsimp only
    have htested : Rests P (d.tell (.tested true)) := h.rests_remark hd rfl
    obtain ⟨hstep, hfailed⟩ := h.rests_stepCore htested
    simp only [if_true]
    split
    next fault heq => exact hfailed _ heq
    next => exact h.rests_settle hstep

/-! ## A tick in each state -/

variable [Input ι]

theorem performRunning (h : Lasting P) (limit : Nat) (hd : Rests P d) :
    Rests P (d.performRunning limit).1 := by
  have hran := h.runSteps limit hd.holds
  unfold Driver.performRunning
  split
  next d₁ fault heq =>
    rw [heq] at hran
    exact hran
  next d₁ heq =>
    rw [heq] at hran
    exact hran
  next d₁ heq =>
    rw [heq] at hran
    have hpolled := h.rests_poll hran false
    split
    next d₂ fault heq =>
      rw [heq] at hpolled
      exact hpolled
    next d₂ request heq =>
      rw [heq] at hpolled
      split
      next => exact h.rests_transition hpolled .stop
      next =>
        split
        next => exact h.rests_transition hpolled .togglePause
        next =>
          dsimp only
          split
          next => exact h.rests_remark (h.rests_remark hpolled rfl) rfl
          next => exact h.rests_remark hpolled rfl

theorem performPaused (h : Lasting P) (hd : Rests P d) : Rests P d.performPaused.1 := by
  have hpolled := h.rests_poll hd false
  unfold Driver.performPaused
  split
  next d₁ fault heq =>
    rw [heq] at hpolled
    exact hpolled
  next d₁ request heq =>
    rw [heq] at hpolled
    split
    next => exact h.rests_transition hpolled .stop
    next =>
      cases request.togglePause with
      | false => exact h.rests_remark hpolled rfl
      | true =>
        have hmoved := h.rests_transition hpolled .togglePause
        simp only [if_true]
        split
        next => exact hmoved
        next => exact h.rests_remark hmoved rfl

theorem performStepping (h : Lasting P) (limit : Nat) (hd : Rests P d) :
    Rests P (d.performStepping limit).1 := by
  have hpolled := h.rests_poll hd true
  unfold Driver.performStepping
  split
  next d₁ fault heq =>
    rw [heq] at hpolled
    exact hpolled
  next d₁ request heq =>
    rw [heq] at hpolled
    split
    next => exact h.rests_transition hpolled .stop
    next =>
      split
      next => exact h.rests_transition hpolled .togglePause
      next =>
        split
        next => exact h.rests_transition hpolled .continue
        next =>
          have hworked : Rests P
              (if request.stepInstruction then d₁.singleStep
                else if request.stepCycle then Driver.finishSteps limit d₁
                else (d₁, .ok ())).1 := by
            split
            next => exact h.singleStep hpolled
            next =>
              split
              next => exact h.finishSteps limit hpolled.holds
              next => exact hpolled
          dsimp only
          split
          next => exact hworked
          next => exact h.rests_remark hworked rfl

variable [Governor γ]

/-- A tick, whatever the state. -/
theorem performWithin (h : Lasting P) (limit : Nat) (hd : Rests P d) :
    Rests P (d.performWithin limit).1 := by
  have hasked : Rests P d.isDue.2 := h.rests_frame hd rfl rfl rfl rfl rfl
  unfold Driver.performWithin
  split
  next =>
    dsimp only
    split
    next => exact h.performRunning limit hasked
    next => exact hasked
  next =>
    dsimp only
    split
    next => exact h.performPaused hasked
    next => exact hasked
  next => exact h.performStepping limit hd
  next => exact hd

/-- What lasts through one tick lasts through any number. -/
theorem performMany (h : Lasting P) (ticks : Nat) (hd : Rests P d) :
    Rests P (Driver.performMany ticks d).1 := by
  induction ticks generalizing d with
  | zero => exact hd
  | succ ticks ih =>
    have hperformed : Rests P d.perform.1 := h.performWithin _ hd
    unfold Driver.performMany
    split
    next => exact hd
    next =>
      split
      next d₁ fault heq =>
        rw [heq] at hperformed
        exact hperformed
      next d₁ heq =>
        rw [heq] at hperformed
        exact ih hperformed

/-! ## Any sequence of operations -/

theorem apply (h : Lasting P) (hd : Rests P d) (op : Op) : Rests P (d.apply op) := by
  cases op with
  | perform => exact h.performWithin _ hd
  | performWithin limit => exact h.performWithin limit hd
  | transition event => exact h.rests_transition hd event
  | edit debugger => exact h.rests_frame hd rfl rfl rfl rfl rfl

/-- What lasts through every tick lasts through whatever is done to the driver. -/
theorem applyAll (h : Lasting P) (hd : Rests P d) (ops : List Op) :
    Rests P (d.applyAll ops) := by
  induction ops generalizing d with
  | nil => exact hd
  | cons op ops ih => exact ih (h.apply hd op)

end Lasting

end Driver

end Retrocore.Execution
