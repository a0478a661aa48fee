import Mathlib.Logic.Relation
import Retrocore.Proofs.Execution.Budget

/-!
# The moves of a driver

What a call makes of a driver is a sequence of moves, each of them small enough
to see at a glance what it does to the state, to the mark that lets a breakpoint
pass, and to the core. `Move` lists them, and `moves_performWithin` says that
every tick is made of them, in whatever state it finds the driver and wherever it
is cut off.

A step is made in one of two ways. A running machine steps only past an address
where it should not stop, or with the mark set, which that uses up
(`Move.run`); where it should stop and the mark is not set, it goes to the
debugger instead (`Move.stop`). The debugger steps wherever it is
(`Move.debug`).

`runSteps_of_cut` says that the loop of a running machine, cut off after some
steps, goes on as if it had not been.
-/

namespace Retrocore.Execution

/-- What is told of neither a step, a breakpoint, the end of a tick nor a change
of state. -/
def Happening.isAside : Happening → Bool
  | .tested _ | .ignoredRequest | .screen _ | .debugScreen => true
  | .stepping | .stepped _ | .tickEnded | .interrupted _ | .moved .. | .breakpointHit => false

namespace Driver

variable {κ γ ι ω : Type} [Core κ] [Monitor ω κ Happening] {s : State}
  {d d' : Driver κ γ ι ω}

/-- A single move of a driver, in a tick that began in the given state. -/
inductive Move : State → Driver κ γ ι ω → Driver κ γ ι ω → Prop
  | governor {s : State} (d : Driver κ γ ι ω) (governor : γ) : Move s d { d with governor }
  | input {s : State} (d : Driver κ γ ι ω) (input : ι) : Move s d { d with input }
  | aside {s : State} (d : Driver κ γ ι ω) {what : Happening} (haside : what.isAside = true) :
    Move s d (d.tell what)
  /-- A request is followed. -/
  | transition {s : State} (d : Driver κ γ ι ω) {event : Event}
    (hrequest : event ≠ .breakpointHit) : Move s d (d.transition event).1
  | endTick {s : State} (d : Driver κ γ ι ω) : Move s d d.endTick
  /-- A running machine makes a step. -/
  | run (d : Driver κ γ ι ω) (hrunning : d.state = .running)
    (hpass : d.passBreakpoint = true ∨ d.debugger.shouldBreak (Core.pc d.core) = false) :
    Move .running d { d with passBreakpoint := false }.stepCore.1
  /-- A running machine comes to a breakpoint. -/
  | stop (d : Driver κ γ ι ω) (hrunning : d.state = .running)
    (hpass : d.passBreakpoint = false)
    (hbreak : d.debugger.shouldBreak (Core.pc d.core) = true) :
    Move .running d ((d.tell .breakpointHit).transition .breakpointHit).1
  /-- The debugger makes a step. -/
  | debug (d : Driver κ γ ι ω) (hstepping : d.state = .stepping) :
    Move .stepping d d.stepCore.1

/-- Any number of moves of a tick. -/
abbrev Moves (s : State) : Driver κ γ ι ω → Driver κ γ ι ω → Prop :=
  Relation.ReflTransGen (Move s)

/-- What every move keeps, any number of moves keep. -/
theorem Moves.keeps {P : Driver κ γ ι ω → Prop} (hmove : ∀ d d', P d → Move s d d' → P d')
    (h : Moves s d d') (hd : P d) : P d' := by
  induction h with
  | refl => exact hd
  | tail _ hlast ih => exact hmove _ _ ih hlast

/-- Except from the debugger, only running and paused machines get anywhere. -/
theorem live_of_on {before next : State} {event : Event} (hon : before.on event = some next)
    (hstepping : before ≠ .stepping) : before = .running ∨ before = .paused := by
  cases before with
  | running => exact .inl rfl
  | paused => exact .inr rfl
  | stepping => exact absurd rfl hstepping
  | stopped =>
    rw [State.on_stopped] at hon
    cases hon

/-! ## What moves leave alone -/

@[simp] theorem stepCore_state : d.stepCore.1.state = d.state := by
  rw [stepCore_eq]
  rfl

@[simp] theorem stepCore_debugger : d.stepCore.1.debugger = d.debugger := by
  rw [stepCore_eq]
  rfl

@[simp] theorem stepCore_passBreakpoint : d.stepCore.1.passBreakpoint = d.passBreakpoint := by
  rw [stepCore_eq]
  rfl

@[simp] theorem stepCore_input : d.stepCore.1.input = d.input := by
  rw [stepCore_eq]
  rfl

@[simp] theorem endTick_state : d.endTick.state = d.state := by
  rcases endTick_cases (d := d) with ⟨_, htick⟩ | ⟨byte, _, htick⟩
  · rw [htick]
    rfl
  · rw [htick]
    rfl

@[simp] theorem endTick_debugger : d.endTick.debugger = d.debugger := by
  rcases endTick_cases (d := d) with ⟨_, htick⟩ | ⟨byte, _, htick⟩
  · rw [htick]
    rfl
  · rw [htick]
    rfl

@[simp] theorem endTick_passBreakpoint : d.endTick.passBreakpoint = d.passBreakpoint := by
  rcases endTick_cases (d := d) with ⟨_, htick⟩ | ⟨byte, _, htick⟩
  · rw [htick]
    rfl
  · rw [htick]
    rfl

@[simp] theorem endTick_input : d.endTick.input = d.input := by
  rcases endTick_cases (d := d) with ⟨_, htick⟩ | ⟨byte, _, htick⟩
  · rw [htick]
    rfl
  · rw [htick]
    rfl

omit [Core κ] in
/-- An event leads to its state, or nowhere if it has no meaning. -/
theorem transition_cases (event : Event) :
    (d.state.on event = none ∧ (d.transition event).1 = d) ∨
    ∃ next, d.state.on event = some next ∧
      (d.transition event).1 =
        { d.tell (.moved d.state next) with
          state := next
          passBreakpoint := d.passBreakpoint || decide (d.state = .stepping ∧ next ≠ .stopped) } := by
  unfold transition
  cases d.state.on event with
  | none => exact .inl ⟨rfl, rfl⟩
  | some next => exact .inr ⟨next, rfl, rfl⟩

omit [Core κ] in
/-- From a running machine to the debugger. -/
theorem transition_breakpointHit (hrunning : d.state = .running) :
    d.transition .breakpointHit =
      ({ d.tell (.moved .running .stepping) with state := .stepping }, .ok ()) := by
  have hon : d.state.on .breakpointHit = some .stepping := by
    rw [hrunning]
    rfl
  unfold transition
  rw [hon]
  dsimp only
  rw [show (d.tell (.moved d.state .stepping)).state = .running from hrunning, hrunning,
    decide_eq_false fun h => State.noConfusion h.1, Bool.or_false]

omit [Core κ] in
@[simp] theorem transition_debugger (event : Event) :
    (d.transition event).1.debugger = d.debugger := by
  rcases transition_cases (d := d) event with ⟨_, hsame⟩ | ⟨next, _, hmoved⟩
  · rw [hsame]
  · rw [hmoved]
    rfl

/-- No move edits the breakpoints. -/
theorem Move.debugger_eq (h : Move s d d') : d'.debugger = d.debugger := by
  cases h with
  | transition => exact transition_debugger _
  | endTick => exact endTick_debugger
  | run => exact stepCore_debugger
  | stop => exact transition_debugger .breakpointHit
  | debug => exact stepCore_debugger
  | _ => rfl

/-! ## Loops -/

/-- The loop of a running machine. -/
theorem moves_runSteps (steps : Nat) (hrunning : d.state = .running) :
    Moves .running d (runSteps steps d).1 := by
  -- one round of the loop is a test and then a step, a stop, or the end of the tick
  induction steps generalizing d with
  | zero =>
    unfold runSteps
    split
    next => exact .single (.endTick d)
    next => exact .refl
  | succ steps ih =>
    have htested (able : Bool) : Moves .running d (d.tell (.tested able)) := .single (.aside d rfl)
    cases d.round with
    | spent _ hrun =>
      rw [hrun]
      exact .single (.endTick d)
    | ends _ hrun =>
      rw [hrun]
      exact (htested false).tail (.transition _ Event.noConfusion)
    | waits _ hrun =>
      rw [hrun]
      exact (htested false).tail (.endTick _)
    | breaks _ _ hpass hbreak hrun =>
      rw [hrun]
      exact (htested true).tail (.stop _ hrunning hpass hbreak)
    | fails _ hpass _ hrun =>
      rw [hrun]
      exact (htested true).tail (.run _ hrunning hpass)
    | goes _ hpass _ hrun =>
      rw [hrun]
      have hstepped : Moves .running d d.readied.stepCore.1 :=
        (htested true).tail (.run _ hrunning hpass)
      exact hstepped.trans (ih (stepCore_state.trans hrunning))

/-- The rest of a tick on behalf of the debugger. -/
theorem moves_finishSteps (steps : Nat) (hstepping : d.state = .stepping) :
    Moves .stepping d (finishSteps steps d).1 := by
  induction steps generalizing d with
  | zero =>
    unfold finishSteps
    dsimp only
    split
    next => exact .single (.endTick d)
    next => exact .refl
  | succ steps ih =>
    unfold finishSteps testCore
    split
    next => exact .single (.endTick d)
    next =>
      cases Core.canRun d.core with
      | false =>
        have htested : Moves .stepping d (d.tell (.tested false)) := .single (.aside d rfl)
        exact htested.tail (.endTick _)
      | true =>
        have htested : Moves .stepping d (d.tell (.tested true)) := .single (.aside d rfl)
        have hstepped := htested.tail (.debug _ hstepping)
        dsimp only
        split
        next d₁ fault heq =>
          rw [heq] at hstepped
          exact hstepped
        next d₁ heq =>
          have hgoes : d₁.state = .stepping := by
            have hkept := stepCore_state (d := d.tell (.tested true))
            rw [heq] at hkept
            exact hkept.trans hstepping
          rw [heq] at hstepped
          exact hstepped.trans (ih hgoes)

/-- The end of the tick, if it is spent. -/
theorem moves_settle (d : Driver κ γ ι ω) :
    Moves s d (if d.spent then d.endTick else d) := by
  split
  next => exact .single (.endTick d)
  next => exact .refl

/-- A single step is made by the debugger. -/
theorem moves_singleStep (hstepping : d.state = .stepping) : Moves .stepping d d.singleStep.1 := by
  unfold singleStep testCore
  cases Core.canRun d.core with
  | false =>
    have htested : Moves .stepping d (d.tell (.tested false)) := .single (.aside d rfl)
    exact htested.trans (moves_settle _)
  | true =>
    have htested : Moves .stepping d (d.tell (.tested true)) := .single (.aside d rfl)
    have hstepped := htested.tail (.debug _ hstepping)
    simp only [if_true]
    split
    next => exact hstepped
    next => exact hstepped.trans (moves_settle _)

/-! ## Ticks -/

section Ticks

variable [Input ι]

/-- Asking for input moves nothing but the input and, if it asks for that, the state. -/
theorem moves_poll (d : Driver κ γ ι ω) (debugOnly : Bool) :
    Moves s d (d.poll debugOnly).1 :=
  .single (.input d _)

/-- A tick of the running machine is made of its moves. -/
theorem moves_performRunning (limit : Nat) (hrunning : d.state = .running) :
    Moves .running d (d.performRunning limit).1 := by
  have hran := moves_runSteps limit hrunning
  unfold performRunning
  -- unless the loop has ended the tick in its own way, the input is polled
  split
  next d₁ fault heq =>
    rw [heq] at hran
    exact hran
  next d₁ heq =>
    rw [heq] at hran
    exact hran
  next d₁ heq =>
    rw [heq] at hran
    have hpolled := hran.trans (moves_poll d₁ false)
    split
    next d₂ fault heq =>
      rw [heq] at hpolled
      exact hpolled
    next d₂ request heq =>
      rw [heq] at hpolled
      split
      next => exact hpolled.tail (.transition d₂ Event.noConfusion)
      next =>
        split
        next => exact hpolled.tail (.transition d₂ Event.noConfusion)
        next =>
          dsimp only
          split
          next => exact (hpolled.tail (.aside d₂ rfl)).tail (.aside _ rfl)
          next => exact hpolled.tail (.aside d₂ rfl)

/-- While the machine is paused, only the input is asked. -/
theorem moves_performPaused (d : Driver κ γ ι ω) : Moves s d d.performPaused.1 := by
  have hpolled : Moves s d (d.poll false).1 := moves_poll d false
  unfold performPaused
  split
  next d₁ fault heq =>
    rw [heq] at hpolled
    exact hpolled
  next d₁ request heq =>
    rw [heq] at hpolled
    split
    next => exact hpolled.tail (.transition d₁ Event.noConfusion)
    next =>
      cases request.togglePause with
      | false => exact hpolled.tail (.aside d₁ rfl)
      | true =>
        have hmoved : Moves s d (d₁.transition .togglePause).1 :=
          hpolled.tail (.transition d₁ Event.noConfusion)
        simp only [if_true]
        split
        next => exact hmoved
        next => exact hmoved.tail (.aside _ rfl)

/-- In the debugger the machine moves by single steps until it is let go. -/
theorem moves_performStepping (limit : Nat) (hstepping : d.state = .stepping) :
    Moves .stepping d (d.performStepping limit).1 := by
  have hpolled : Moves .stepping d (d.poll true).1 := moves_poll d true
  unfold performStepping
  split
  next d₁ fault heq =>
    rw [heq] at hpolled
    exact hpolled
  next d₁ request heq =>
    have hstate : d₁.state = .stepping := by
      have hkept : (d.poll true).1.state = d.state := rfl
      rw [heq] at hkept
      exact hkept.trans hstepping
    rw [heq] at hpolled
    split
    next => exact hpolled.tail (.transition d₁ Event.noConfusion)
    next =>
      split
      next => exact hpolled.tail (.transition d₁ Event.noConfusion)
      next =>
        split
        next => exact hpolled.tail (.transition d₁ Event.noConfusion)
        next =>
          have hworked : Moves .stepping d₁
              (if request.stepInstruction then d₁.singleStep
                else if request.stepCycle then finishSteps limit d₁
                else (d₁, .ok ())).1 := by
            split
            next => exact moves_singleStep hstate
            next =>
              split
              next => exact moves_finishSteps limit hstate
              next => exact .refl
          dsimp only
          split
          next => exact hpolled.trans hworked
          next => exact (hpolled.trans hworked).tail (.aside _ rfl)

variable [Governor γ]

/-- A tick, whatever the state. -/
theorem moves_performWithin (limit : Nat) (d : Driver κ γ ι ω) :
    Moves d.state d (d.performWithin limit).1 := by
  have hasked : Moves d.state d d.isDue.2 := .single (.governor d _)
  unfold performWithin
  split
  next hrunning =>
    rw [hrunning] at hasked ⊢
    dsimp only
    split
    next => exact hasked.trans (moves_performRunning limit hrunning)
    next => exact hasked
  next =>
    dsimp only
    split
    next => exact hasked.trans (moves_performPaused _)
    next => exact hasked
  next hstepping =>
    rw [hstepping]
    exact moves_performStepping limit hstepping
  next => exact .refl

/-- What every move keeps, any number of ticks keep. -/
theorem keeps_performMany {P : Driver κ γ ι ω → Prop}
    (hmove : ∀ s d d', P d → Move s d d' → P d') (ticks : Nat) (hd : P d) :
    P (performMany ticks d).1 := by
  induction ticks generalizing d with
  | zero => exact hd
  | succ ticks ih =>
    have hperformed : P d.perform.1 := (moves_performWithin _ d).keeps (hmove _) hd
    unfold performMany
    split
    next => exact hd
    next =>
      split
      next d₁ fault heq =>
        rw [heq] at hperformed
        exact hperformed
      next d₁ heq =>
        rw [heq] at hperformed
        exact ih hperformed

/-- What every move keeps, and every interference from outside that is allowed,
is kept by whatever is done to a driver. -/
theorem keeps_under {P : Driver κ γ ι ω → Prop} (Allowed : Driver κ γ ι ω → Deed κ → Prop)
    (hmove : ∀ s d d', P d → Move s d d' → P d')
    (htransition : ∀ d event, P d → Allowed d (.op (.transition event)) → P (d.transition event).1)
    (hedit : ∀ d debugger, P d → Allowed d (.op (.edit debugger)) → P { d with debugger })
    (hstart : ∀ d, P d → P { d with core := Core.start d.core })
    (halter : ∀ d core, P d → Allowed d (.alter core) → P { d with core })
    (hd : P d) {deed : Deed κ} (hallowed : Allowed d deed) : P (d.under deed) := by
  cases deed with
  | op op =>
    cases op with
    | perform => exact (moves_performWithin _ d).keeps (hmove _) hd
    | performWithin limit => exact (moves_performWithin limit d).keeps (hmove _) hd
    | transition event => exact htransition d event hd hallowed
    | edit debugger => exact hedit d debugger hd hallowed
  | alter core => exact halter d core hd hallowed
  | run ticks =>
    simp only [Driver.under, Driver.run]
    split
    next => exact hd
    next => exact keeps_performMany hmove ticks (hstart d hd)

end Ticks

/-! ## A loop that is cut off -/

/-- If the loop of a running machine was cut off and the machine is running
still, the tick is not spent, and more steps go on from there. -/
theorem runSteps_of_cut {c : Driver κ γ ι ω} {steps : Nat} (hrunning : d.state = .running)
    (hcut : runSteps steps d = (c, .ok false)) (hgoes : c.state = .running) :
    ¬ c.spent = true ∧ ∀ more, runSteps (steps + more) d = runSteps more c := by
  induction steps generalizing d with
  | zero =>
    unfold runSteps at hcut
    split at hcut
    next => cases hcut
    next hspent =>
      cases hcut
      refine ⟨hspent, fun more => ?_⟩
      rw [Nat.zero_add]
  | succ steps ih =>
    -- every way out of the loop but the limit ends the tick or the running
    cases d.round with
    | spent _ hrun =>
      rw [hrun] at hcut
      cases hcut
    | ends _ hrun =>
      rw [hrun] at hcut
      have hleft : ((d.tell (.tested false)).transition .stop).1 = c := congrArg Prod.fst hcut
      unfold transition at hleft
      rw [show (d.tell (.tested false)).state = .running from hrunning] at hleft
      rw [← hleft] at hgoes
      cases hgoes
    | waits _ hrun =>
      rw [hrun] at hcut
      cases hcut
    | breaks _ _ _ _ hrun =>
      rw [hrun] at hcut
      have hthere : ((d.tell (.tested true)).tell .breakpointHit).state = .running := hrunning
      have hleft : (((d.tell (.tested true)).tell .breakpointHit).transition .breakpointHit).1 = c :=
        congrArg Prod.fst hcut
      rw [transition_breakpointHit hthere] at hleft
      rw [← hleft] at hgoes
      cases hgoes
    | fails _ _ _ hrun =>
      rw [hrun] at hcut
      cases hcut
    | goes _ _ _ hrun =>
      rw [hrun] at hcut
      have hstepped : d.readied.stepCore.1.state = .running := stepCore_state.trans hrunning
      obtain ⟨hleft, hmore⟩ := ih hstepped hcut
      refine ⟨hleft, fun more => ?_⟩
      rw [Nat.add_right_comm, hrun, hmore]

end Driver

end Retrocore.Execution
