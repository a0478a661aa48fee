import Retrocore.Proofs.Execution.Moves
import Retrocore.Proofs.Frames.Requests

/-!
# A driver and the table of its states

A tick asks for a transition when the user has made a request, at a breakpoint,
and once the core can run no further, and each of these means something in the
state that the tick is in then. So a tick that fails does so because a step of
the core or a poll of the input has failed, which was the last thing it did
(`CutShort`).

`Lawful` is what is proved of every part of a tick: besides that, the state moves
along one edge of the table at most, and whatever becomes of the core and the
input comes from calls and polls. `lawful_performWithin` is the whole tick, and
`perform_lawful` what follows for every sequence of operations: with a core and
an input that do not fail no tick fails, and a driver that has stopped leaves
everything alone for good.
-/

namespace Retrocore.Execution

/-! ## Cores and inputs that do not fail -/

section Unfailing

variable {κ ι : Type} [Core κ] [Input ι]

/-- Whatever is asked of the core, no step of it fails. -/
def CoreUnfailing (core : κ) : Prop :=
  ∀ calls, (Core.step (Core.after core calls)).fault? = none

/-- The input after some polls. -/
def Input.after (input : ι) (polls : List Bool) : ι :=
  polls.foldl (fun input debugOnly => (Input.poll input debugOnly).1) input

/-- However often the input is polled, it answers. -/
def InputUnfailing (input : ι) : Prop :=
  ∀ polls debugOnly, ∃ request, (Input.poll (Input.after input polls) debugOnly).2 = .ok request

/-- Questions go on from where the input has come to. -/
theorem Input.after_append (input : ι) (polls more : List Bool) :
    Input.after input (polls ++ more) = Input.after (Input.after input polls) more :=
  List.foldl_append

/-- A core that cannot fail cannot fail later either. -/
theorem CoreUnfailing.after {core : κ} (h : CoreUnfailing core) (calls : List Call) :
    CoreUnfailing (Core.after core calls) := by
  intro more
  rw [← Core.after_append]
  exact h (calls ++ more)

theorem InputUnfailing.after {input : ι} (h : InputUnfailing input) (polls : List Bool) :
    InputUnfailing (Input.after input polls) := by
  intro more debugOnly
  rw [← Input.after_append]
  exact h (polls ++ more) debugOnly

end Unfailing

/-! An 8080 that nothing is connected to does not fail. -/

section Unconnected

variable {μ δ : Type} [Mapper μ Byte] [Observer δ Byte Byte] {m : I8080.Machine μ δ}

theorem observers_step_of_unconnected (h : m.ports.observers = []) :
    m.step.state.ports.observers = [] := by
  have hports : m.step.state.ports = m.ports.after m.request? := m.reaches_step.ports
  rw [hports]
  match m.request? with
  | none => exact h
  | some (.inp port) =>
    show (Observer.notifyIn m.ports.observers port).1 = []
    rw [h]
    rfl
  | some (.out port v) =>
    show (Observer.notifyOut m.ports.observers port v).1 = []
    rw [h]
    rfl

/-- There is nobody to refuse a request. -/
theorem fault?_step_of_unconnected (h : m.ports.observers = []) : m.step.fault? = none := by
  refine Option.eq_none_iff_forall_not_mem.mpr fun fault hfault => ?_
  obtain ⟨m', hstep⟩ := Ran.fault?_eq_some_iff.mp hfault
  obtain ⟨i, _, hbreaks⟩ := I8080.Machine.step_eq_error_iff.mp hstep
  have hbegun : m.begun.ports.observers = [] :=
    (congrArg Ports.observers m.ports_begun).trans h
  cases hbreaks with
  | inp hrefused =>
    unfold Ports.RefusesIn at hrefused
    rw [hbegun] at hrefused
    cases hrefused
  | out hrefused =>
    unfold Ports.RefusesOut at hrefused
    rw [hbegun] at hrefused
    cases hrefused

/-- An 8080 whose ports nobody listens to never fails, for all its opcodes mean
something. -/
theorem coreUnfailing_of_unconnected (h : m.ports.observers = []) : CoreUnfailing m := by
  intro calls
  induction calls generalizing m with
  | nil => exact fault?_step_of_unconnected h
  | cons call calls ih =>
    cases call with
    | step => exact ih (observers_step_of_unconnected h)
    | interrupt byte => exact ih (m := m.interrupt byte) h

end Unconnected

/-- A user with a list of requests, who makes one of them at each poll. -/
instance : Input (List Request) := ⟨fun requests _ => (requests.tail, .ok (requests.headD {}))⟩

namespace Driver

variable {κ γ ι ω α β : Type} [Core κ] [Input ι] {d d' : Driver κ γ ι ω}

/-! ## What is lawful -/

/-- One comes from the other along an edge of the table or in the same state, by
calls on the core and by polls. -/
structure Follows (d d' : Driver κ γ ι ω) : Prop where
  edge : d'.state = d.state ∨ ∃ event, d.state.on event = some d'.state
  calls : ∃ calls, d'.core = Core.after d.core calls
  polls : ∃ polls, d'.input = Input.after d.input polls

/-- A step of the core or a poll of the input has failed, and was the last. -/
def CutShort (d : Driver κ γ ι ω) (r : Driver κ γ ι ω × Except Fault α) : Prop :=
  ∃ fault, r.2 = .error fault ∧
    ((∃ calls, Core.step (Core.after d.core calls) = ⟨r.1.core, .error fault⟩) ∨
      ∃ polls debugOnly,
        Input.poll (Input.after d.input polls) debugOnly = (r.1.input, .error fault))

/-- What a part of a tick comes to. -/
structure Lawful (d : Driver κ γ ι ω) (r : Driver κ γ ι ω × Except Fault α) : Prop where
  follows : d.Follows r.1
  ends : (∃ a, r.2 = .ok a) ∨ d.CutShort r

/-- Core and input may stay as they are. -/
theorem Follows.of_same (hstate : d'.state = d.state) (hcore : d'.core = d.core)
    (hinput : d'.input = d.input) : d.Follows d' :=
  ⟨.inl hstate, ⟨[], hcore⟩, ⟨[], hinput⟩⟩

theorem Follows.refl : d.Follows d := .of_same rfl rfl rfl

/-- What follows without a fault is lawful. -/
theorem Follows.ok (h : d.Follows d') (a : α) : Lawful d (d', .ok a) := ⟨h, .inl ⟨a, rfl⟩⟩

/-- One part of a tick after another. Only the last may leave the state. -/
theorem Lawful.trans {r : Driver κ γ ι ω × Except Fault α} (h : d.Follows d')
    (hstate : d'.state = d.state) (h' : Lawful d' r) : Lawful d r := by
  obtain ⟨_, ⟨calls, hcalls⟩, ⟨polls, hpolls⟩⟩ := h
  obtain ⟨⟨hedge, ⟨calls', hcalls'⟩, ⟨polls', hpolls'⟩⟩, hends⟩ := h'
  rw [hstate] at hedge
  rw [hcalls, ← Core.after_append] at hcalls'
  rw [hpolls, ← Input.after_append] at hpolls'
  refine ⟨⟨hedge, ⟨_, hcalls'⟩, ⟨_, hpolls'⟩⟩, hends.imp_right ?_⟩
  rintro ⟨fault, hfault, ⟨calls'', hstep⟩ | ⟨polls'', debugOnly, hpoll⟩⟩
  · rw [hcalls, ← Core.after_append] at hstep
    exact ⟨fault, hfault, .inl ⟨_, hstep⟩⟩
  · rw [hpolls, ← Input.after_append] at hpoll
    exact ⟨fault, hfault, .inr ⟨_, debugOnly, hpoll⟩⟩

/-- Only the state, the core and the input that it begins with matter. -/
theorem Lawful.frame {r : Driver κ γ ι ω × Except Fault α} (h : Lawful d' r)
    (hstate : d'.state = d.state) (hcore : d'.core = d.core) (hinput : d'.input = d.input) :
    Lawful d r :=
  .trans (.of_same hstate hcore hinput) hstate h

/-- A fault is passed on. -/
theorem Lawful.of_error {fault : Fault}
    (h : Lawful d ((d', .error fault) : Driver κ γ ι ω × Except Fault α)) :
    Lawful d ((d', .error fault) : Driver κ γ ι ω × Except Fault β) := by
  refine ⟨h.follows, ?_⟩
  obtain ⟨_, hok⟩ | ⟨_, hfault, hcause⟩ := h.ends
  · cases hok
  · cases hfault
    exact .inr ⟨fault, rfl, hcause⟩

/-! ## The parts of a tick -/

/-- Asking for input fails only if the input does. -/
theorem lawful_poll (d : Driver κ γ ι ω) (debugOnly : Bool) : Lawful d (d.poll debugOnly) := by
  refine ⟨⟨.inl rfl, ⟨[], rfl⟩, ⟨[debugOnly], rfl⟩⟩, ?_⟩
  cases hresult : (Input.poll d.input debugOnly).2 with
  | ok request => exact .inl ⟨request, hresult⟩
  | error fault => exact .inr ⟨fault, hresult, .inr ⟨[], debugOnly, Prod.ext rfl hresult⟩⟩

/-- A poll in the state that the tick began in. -/
theorem Follows.poll {d₁ : Driver κ γ ι ω} {debugOnly : Bool} {answer : Except Fault Request}
    (h : d.Follows d') (hstate : d'.state = d.state) (hpoll : d'.poll debugOnly = (d₁, answer)) :
    Lawful d (d₁, answer) ∧ d₁.state = d.state := by
  have hpolled : Lawful d (d'.poll debugOnly) := .trans h hstate (lawful_poll d' debugOnly)
  rw [hpoll] at hpolled
  exact ⟨hpolled, (congrArg (·.1.state) hpoll).symm.trans hstate⟩

variable [Monitor ω κ Happening]

theorem Follows.tell (h : d.Follows d') (what : Happening) : d.Follows (d'.tell what) :=
  ⟨h.edge, h.calls, h.polls⟩

omit [Core κ] [Input ι] in
/-- An event that the table has moves the driver. -/
theorem transition_of_on {event : Event} {next : State} (hon : d.state.on event = some next) :
    d.transition event =
      ({ d.tell (.moved d.state next) with
          state := next
          passBreakpoint :=
            d.passBreakpoint || decide (d.state = .stepping ∧ next ≠ .stopped) }, .ok ()) := by
  unfold transition
  rw [hon]
  rfl

omit [Core κ] [Input ι] in
/-- Any other is refused and changes nothing. -/
theorem transition_of_on_eq_none {event : Event} (hon : d.state.on event = none) :
    ∃ message, d.transition event = (d, .error (.misuse message)) := by
  unfold transition
  rw [hon]
  exact ⟨_, rfl⟩

theorem lawful_transition {event : Event} {next : State} (hon : d.state.on event = some next) :
    Lawful d (d.transition event) := by
  rw [transition_of_on hon]
  refine Follows.ok ?_ ()
  exact ⟨.inr ⟨event, hon⟩, ⟨[], rfl⟩, ⟨[], rfl⟩⟩

/-- A step fails only if the core does. -/
theorem lawful_stepCore (d : Driver κ γ ι ω) : Lawful d d.stepCore := by
  refine ⟨⟨.inl stepCore_state, ⟨[.step], stepCore_core⟩, ⟨[], stepCore_input⟩⟩, ?_⟩
  rw [stepCore_eq]
  cases hresult : (Core.step d.core).result with
  | ok n => exact .inl ⟨(), rfl⟩
  | error fault =>
    refine .inr ⟨fault, rfl, .inl ⟨[], ?_⟩⟩
    show Core.step d.core = ⟨(Core.step d.core).state, .error fault⟩
    rw [← hresult]

/-- A step that is made once the core has said that it can run. -/
theorem lawful_of_tested {result : Except Fault Unit}
    (hstep : (d.tell (.tested true)).stepCore = (d', result)) :
    Lawful d (d', result) ∧ d'.state = d.state := by
  have hstepped := lawful_stepCore (d.tell (.tested true))
  have hstate := stepCore_state (d := d.tell (.tested true))
  rw [hstep] at hstepped hstate
  exact ⟨hstepped.frame rfl rfl rfl, hstate⟩

/-- At the end of a tick an interrupt may be requested. -/
theorem follows_endTick (d : Driver κ γ ι ω) : d.Follows d.endTick := by
  refine ⟨.inl endTick_state, ?_, ⟨[], endTick_input⟩⟩
  rcases endTick_cases (d := d) with ⟨_, htick⟩ | ⟨byte, _, htick⟩
  · rw [htick]
    exact ⟨[], rfl⟩
  · rw [htick]
    exact ⟨[.interrupt byte], rfl⟩

theorem follows_settle (d : Driver κ γ ι ω) : d.Follows (if d.spent then d.endTick else d) := by
  split
  next => exact follows_endTick d
  next => exact .refl

/-! ## Loops -/

/-- Leaving a running machine's loop by a transition. -/
theorem lawful_leftBy {event : Event} {next : State} (hon : d.state.on event = some next) :
    Lawful d (leftBy (d.transition event)) ∧ (leftBy (d.transition event)).2 = .ok false := by
  have hmoved := (lawful_transition hon).follows
  rw [transition_of_on hon] at hmoved ⊢
  exact ⟨hmoved.ok false, rfl⟩

/-- The loop of a running machine. Unless it was left early, the machine is
running still. -/
theorem lawful_runSteps (steps : Nat) (hrunning : d.state = .running) :
    Lawful d (runSteps steps d) ∧
      ((runSteps steps d).2 = .ok false ∨ (runSteps steps d).1.state = .running) := by
  induction steps generalizing d with
  | zero =>
    unfold runSteps
    split
    next => exact ⟨(follows_endTick d).ok true, .inr (endTick_state.trans hrunning)⟩
    next => exact ⟨Follows.refl.ok false, .inl rfl⟩
  | succ steps ih =>
    -- the loop is left by a transition, which a running machine can make, or goes on
    have hstepped : Lawful d d.readied.stepCore := (lawful_stepCore d.readied).frame rfl rfl rfl
    cases d.round with
    | spent _ hrun =>
      rw [hrun]
      exact ⟨(follows_endTick d).ok true, .inr (endTick_state.trans hrunning)⟩
    | ends _ hrun =>
      have hon : (d.tell (.tested false)).state.on .stop = some .stopped :=
        congrArg (State.on · .stop) hrunning
      obtain ⟨hleft, hresult⟩ := lawful_leftBy hon
      rw [hrun]
      exact ⟨hleft.frame rfl rfl rfl, .inl hresult⟩
    | waits _ hrun =>
      have hended := (follows_endTick (d.tell (.tested false))).ok true
      rw [hrun]
      exact ⟨hended.frame rfl rfl rfl, .inr (endTick_state.trans hrunning)⟩
    | breaks _ _ _ _ hrun =>
      have hon : ((d.tell (.tested true)).tell .breakpointHit).state.on .breakpointHit =
          some .stepping := congrArg (State.on · .breakpointHit) hrunning
      obtain ⟨hleft, hresult⟩ := lawful_leftBy hon
      rw [hrun]
      exact ⟨hleft.frame rfl rfl rfl, .inl hresult⟩
    | fails _ _ hstep hrun =>
      rw [hrun]
      rw [show d.readied.stepCore = (d.readied.stepCore.1, .error _) from Prod.ext rfl hstep]
        at hstepped
      exact ⟨hstepped.of_error, .inr (stepCore_state.trans hrunning)⟩
    | goes _ _ _ hrun =>
      obtain ⟨hrest, hends⟩ := ih (d := d.readied.stepCore.1) (stepCore_state.trans hrunning)
      rw [hrun]
      exact ⟨.trans hstepped.follows stepCore_state hrest, hends⟩

/-- The rest of a tick on behalf of the debugger. -/
theorem lawful_finishSteps (steps : Nat) (d : Driver κ γ ι ω) : Lawful d (finishSteps steps d) := by
  induction steps generalizing d with
  | zero => exact (follows_settle d).ok ()
  | succ steps ih =>
    unfold finishSteps testCore
    split
    next => exact (follows_endTick d).ok ()
    next =>
      cases Core.canRun d.core with
      | false => exact ((follows_endTick (d.tell (.tested false))).ok ()).frame rfl rfl rfl
      | true =>
        dsimp only
        cases hstep : (d.tell (.tested true)).stepCore with
        | mk d₁ result =>
          obtain ⟨hstepped, hstate⟩ := lawful_of_tested hstep
          cases result with
          | error fault => exact hstepped
          | ok => exact .trans hstepped.follows hstate (ih d₁)

theorem lawful_singleStep (d : Driver κ γ ι ω) : Lawful d d.singleStep := by
  unfold singleStep testCore
  cases Core.canRun d.core with
  | false => exact ((follows_settle (d.tell (.tested false))).ok ()).frame rfl rfl rfl
  | true =>
    simp only [if_true]
    cases hstep : (d.tell (.tested true)).stepCore with
    | mk d₁ result =>
      obtain ⟨hstepped, hstate⟩ := lawful_of_tested hstep
      cases result with
      | error fault => exact hstepped
      | ok => exact .trans hstepped.follows hstate ((follows_settle d₁).ok ())

/-! ## Ticks -/

/-- A request is followed that means something in the state of the tick. -/
theorem Follows.transition (h : d.Follows d') (hstate : d'.state = d.state) {event : Event}
    {next : State} (hon : d.state.on event = some next) : Lawful d (d'.transition event) :=
  .trans h hstate (lawful_transition ((congrArg (State.on · event) hstate).trans hon))

theorem lawful_performRunning (limit : Nat) (hrunning : d.state = .running) :
    Lawful d (d.performRunning limit) := by
  have hran := lawful_runSteps (d := d) limit hrunning
  unfold performRunning
  cases hrun : runSteps limit d with
  | mk d₁ result =>
    rw [hrun] at hran
    obtain ⟨hran, hends⟩ := hran
    match result with
    | .error fault => exact hran.of_error
    | .ok false => exact hran.follows.ok ()
    | .ok true =>
      -- the tick was ended, and the machine is running still
      have hrunning₁ : d₁.state = d.state :=
        (hends.resolve_left fun h => by cases h).trans hrunning.symm
      dsimp only
      cases hpoll : d₁.poll false with
      | mk d₂ answer =>
        obtain ⟨hpolled, hstate⟩ := hran.follows.poll hrunning₁ hpoll
        cases answer with
        | error fault => exact hpolled.of_error
        | ok request =>
          dsimp only
          split
          next => exact hpolled.follows.transition hstate (congrArg (State.on · .stop) hrunning)
          next =>
            split
            next =>
              exact hpolled.follows.transition hstate (congrArg (State.on · .togglePause) hrunning)
            next =>
              split
              next => exact ((hpolled.follows.tell .ignoredRequest).tell _).ok ()
              next => exact (hpolled.follows.tell _).ok ()

theorem lawful_performPaused (hpaused : d.state = .paused) : Lawful d d.performPaused := by
  have hresume : d.state.on .togglePause = some .running :=
    congrArg (State.on · .togglePause) hpaused
  unfold performPaused
  cases hpoll : d.poll false with
  | mk d₁ answer =>
    obtain ⟨hpolled, hstate⟩ := Follows.refl.poll rfl hpoll
    cases answer with
    | error fault => exact hpolled.of_error
    | ok request =>
      dsimp only
      split
      next => exact hpolled.follows.transition hstate (congrArg (State.on · .stop) hpaused)
      next =>
        cases request.togglePause with
        | false => exact (hpolled.follows.tell _).ok ()
        | true =>
          have hmoved := hpolled.follows.transition hstate hresume
          have hon : d₁.state.on .togglePause = some .running := by rw [hstate, hresume]
          simp only [if_true]
          rw [transition_of_on hon] at hmoved ⊢
          exact (hmoved.follows.tell _).ok ()

theorem lawful_performStepping (limit : Nat) (hstepping : d.state = .stepping) :
    Lawful d (d.performStepping limit) := by
  unfold performStepping
  cases hpoll : d.poll true with
  | mk d₁ answer =>
    obtain ⟨hpolled, hstate⟩ := Follows.refl.poll rfl hpoll
    cases answer with
    | error fault => exact hpolled.of_error
    | ok request =>
      dsimp only
      split
      next => exact hpolled.follows.transition hstate (congrArg (State.on · .stop) hstepping)
      next =>
        split
        next =>
          exact hpolled.follows.transition hstate (congrArg (State.on · .togglePause) hstepping)
        next =>
          split
          next =>
            exact hpolled.follows.transition hstate (congrArg (State.on · .continue) hstepping)
          next =>
            have hworked : Lawful d₁
                (if request.stepInstruction then d₁.singleStep
                  else if request.stepCycle then finishSteps limit d₁
                  else (d₁, .ok ())) := by
              split
              next => exact lawful_singleStep d₁
              next =>
                split
                next => exact lawful_finishSteps limit d₁
                next => exact Follows.refl.ok ()
            -- whichever it was, the debugger shows what has come of it
            generalize (if request.stepInstruction then d₁.singleStep
              else if request.stepCycle then finishSteps limit d₁
              else (d₁, .ok ())) = worked at hworked ⊢
            obtain ⟨d₂, result⟩ := worked
            have hdone := Lawful.trans hpolled.follows hstate hworked
            cases result with
            | error fault => exact hdone
            | ok => exact (hdone.follows.tell _).ok ()

variable [Governor γ]

/-- A tick moves along one edge of the table at most, and does not fail of
itself. -/
theorem lawful_performWithin (limit : Nat) (d : Driver κ γ ι ω) :
    Lawful d (d.performWithin limit) := by
  have hasked : d.Follows d.isDue.2 := ⟨.inl rfl, ⟨[], rfl⟩, ⟨[], rfl⟩⟩
  unfold performWithin
  split
  next hrunning =>
    dsimp only
    split
    next => exact .trans hasked rfl (lawful_performRunning limit hrunning)
    next => exact hasked.ok ()
  next hpaused =>
    dsimp only
    split
    next => exact .trans hasked rfl (lawful_performPaused hpaused)
    next => exact hasked.ok ()
  next hstepping => exact lawful_performStepping limit hstepping
  next => exact Follows.refl.ok ()

/-! ## Sequences of operations -/

theorem follows_apply (d : Driver κ γ ι ω) (op : Op) : d.Follows (d.apply op) := by
  cases op with
  | perform => exact (lawful_performWithin _ d).follows
  | performWithin limit => exact (lawful_performWithin limit d).follows
  | transition event =>
    cases hon : d.state.on event with
    | none =>
      obtain ⟨message, hrejected⟩ := transition_of_on_eq_none hon
      have hsame : d.apply (.transition event) = d := congrArg Prod.fst hrejected
      rw [hsame]
      exact .refl
    | some next => exact (lawful_transition hon).follows
  | edit debugger => exact .of_same rfl rfl rfl

/-- Neither the core nor the input fails, whatever is asked of them. -/
structure Unfailing (d : Driver κ γ ι ω) : Prop where
  core : CoreUnfailing d.core
  input : InputUnfailing d.input

omit [Monitor ω κ Happening] [Governor γ] in
/-- Where neither core nor input fails, nothing is cut short. -/
theorem Unfailing.not_cutShort (h : d.Unfailing) {r : Driver κ γ ι ω × Except Fault α} :
    ¬ d.CutShort r := by
  rintro ⟨fault, _, ⟨calls, hstep⟩ | ⟨polls, debugOnly, hpoll⟩⟩
  · have hfine := h.core calls
    rw [hstep] at hfine
    cases hfine
  · obtain ⟨request, hanswer⟩ := h.input polls debugOnly
    rw [hpoll] at hanswer
    cases hanswer

omit [Monitor ω κ Happening] [Governor γ] in
theorem Unfailing.of_follows (h : d.Unfailing) (hfollows : d.Follows d') : d'.Unfailing := by
  obtain ⟨_, ⟨calls, hcalls⟩, ⟨polls, hpolls⟩⟩ := hfollows
  refine ⟨?_, ?_⟩
  · rw [hcalls]
    exact h.core.after calls
  · rw [hpolls]
    exact h.input.after polls

theorem Unfailing.applyAll (h : d.Unfailing) (ops : List Op) : (d.applyAll ops).Unfailing := by
  induction ops generalizing d with
  | nil => exact h
  | cons op ops ih => exact ih (h.of_follows (d.follows_apply op))

/-- So every tick ends well. -/
theorem Unfailing.performWithin (h : d.Unfailing) (limit : Nat) :
    (d.performWithin limit).2 = .ok () := by
  obtain ⟨_, hok⟩ := (lawful_performWithin limit d).ends.resolve_right h.not_cutShort
  exact hok

/-- A stopped driver does nothing. -/
theorem performWithin_of_stopped (hstopped : d.state = .stopped) (limit : Nat) :
    d.performWithin limit = (d, .ok ()) := by
  unfold performWithin
  rw [hstopped]

/-- Nothing but the breakpoints can be changed any more. -/
theorem apply_of_stopped (hstopped : d.state = .stopped) (op : Op) :
    ∃ debugger, d.apply op = { d with debugger } := by
  cases op with
  | perform => exact ⟨d.debugger, congrArg Prod.fst (performWithin_of_stopped hstopped _)⟩
  | performWithin limit =>
    exact ⟨d.debugger, congrArg Prod.fst (performWithin_of_stopped hstopped limit)⟩
  | transition event =>
    have hon : d.state.on event = none := by
      rw [hstopped]
      exact State.on_stopped event
    obtain ⟨message, hrejected⟩ := transition_of_on_eq_none hon
    exact ⟨d.debugger, congrArg Prod.fst hrejected⟩
  | edit debugger => exact ⟨debugger, rfl⟩

/-- Nothing that is done to it but edits makes a difference. -/
theorem applyAll_of_stopped (hstopped : d.state = .stopped) (ops : List Op) :
    ∃ debugger, d.applyAll ops = { d with debugger } := by
  induction ops generalizing d with
  | nil => exact ⟨d.debugger, rfl⟩
  | cons op ops ih =>
    obtain ⟨debugger, hop⟩ := apply_of_stopped hstopped op
    obtain ⟨debugger', hops⟩ := ih (d := { d with debugger }) hstopped
    refine ⟨debugger', ?_⟩
    rw [← hops, ← hop]
    rfl

/-- **A tick never trips over the table of states.** Whatever has been done to a
driver: its next tick succeeds unless the core or the input fails, whichever
operation comes next moves the state along one edge of the table or not at all,
a transition that is rejected changes nothing, and once the driver has stopped
nothing of it changes but the breakpoints that are edited from outside, so that
nobody is asked for anything. -/
theorem perform_lawful (core : κ) (governor : γ) (input : ι) (monitor : ω) (config : Config)
    (ops : List Op) :
    let d := (Driver.new core governor input monitor config).applyAll ops
    (∀ limit, (d.performWithin limit).2 = .ok () ∨ d.CutShort (d.performWithin limit)) ∧
    (CoreUnfailing core → InputUnfailing input →
      d.perform.2 = .ok () ∧ ∀ limit, (d.performWithin limit).2 = .ok ()) ∧
    (∀ op, (d.apply op).state = d.state ∨ ∃ event, d.state.on event = some (d.apply op).state) ∧
    (∀ event,
      (d.state.on event = none ∧
        ∃ message, d.transition event = (d, .error (.misuse message))) ∨
      ((d.transition event).2 = .ok () ∧
        d.state.on event = some (d.transition event).1.state)) ∧
    (d.state = .stopped →
      (∀ limit, d.performWithin limit = (d, .ok ())) ∧
      ∀ later, ∃ debugger, d.applyAll later = { d with debugger }) := by
  intro d
  refine ⟨fun limit => ?_, fun hcore hinput => ?_, fun op => (d.follows_apply op).edge,
    fun event => ?_, fun hstopped => ?_⟩
  · exact (lawful_performWithin limit d).ends.imp_left fun ⟨_, hok⟩ => hok
  · have hnew : (Driver.new core governor input monitor config).Unfailing := ⟨hcore, hinput⟩
    have hd : d.Unfailing := hnew.applyAll ops
    exact ⟨hd.performWithin _, hd.performWithin⟩
  · cases hon : d.state.on event with
    | none => exact .inl ⟨rfl, transition_of_on_eq_none hon⟩
    | some next =>
      rw [transition_of_on hon]
      exact .inr ⟨rfl, rfl⟩
  · exact ⟨performWithin_of_stopped hstopped, applyAll_of_stopped hstopped⟩

/-- A loop with a breakpoint. The user has the tick run out from there, goes on,
may not do so once more, comes to the breakpoint again, pauses there, resumes and
quits. -/
theorem perform_lawful_debugged :
    let core : I8080.Machine Empty (Recorder Byte Byte) :=
      I8080.Machine.start (.new (.ofList [0x04, 0x0c, 0xc3, 0x00, 0x00]) 0)
    let input : List Request :=
      [{ stepCycle := true }, { continueRunning := true }, { togglePause := true },
        { togglePause := true }, { quit := true }]
    let config : Config := { cyclesPerTick := 12, debugMode := true }
    let ops : List Op :=
      [.edit { breakpoints := [.ofAddress 2], debugMode := true }, .perform, .perform, .perform,
        .transition .continue, .perform, .perform, .perform, .perform]
    let d := (Driver.new core () input () config).applyAll ops
    (CoreUnfailing core ∧ InputUnfailing input ∧ d.state = .stopped ∧ d.totalCycles = 40) ∧
    d.perform.2 = .ok () ∧
    (∃ message, d.transition .continue = (d, .error (.misuse message))) ∧
    ∀ later, ∃ debugger, d.applyAll later = { d with debugger } := by
  intro core input config ops d
  have hcore : CoreUnfailing core := coreUnfailing_of_unconnected rfl
  have hinput : InputUnfailing input := fun _ _ => ⟨_, rfl⟩
  have hstopped : d.state = .stopped := by decide +kernel
  have htotal : d.totalCycles = 40 := by decide +kernel
  obtain ⟨_, hperforms, _, htransitions, hrests⟩ := perform_lawful core () input () config ops
  refine ⟨⟨hcore, hinput, hstopped, htotal⟩, (hperforms hcore hinput).1, ?_, (hrests hstopped).2⟩
  obtain ⟨_, hrejected⟩ | ⟨_, hon⟩ := htransitions .continue
  · exact hrejected
  · rw [hstopped] at hon
    cases hon

end Driver

end Retrocore.Execution
