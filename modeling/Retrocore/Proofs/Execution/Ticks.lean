import Retrocore.Proofs.Execution.FreeRun

/-!
# The parts of a tick

What a step and the end of a tick do to a driver, whoever listens, and the ways
in which a round of a running machine's loop can go (`Round`). A tick is run
with a limit on the number of its steps; as long as every step costs something,
a limit that covers what is left of the budget is never reached, so it does not
matter which one it is (`performWithin_eq_perform`).
-/

namespace Retrocore.Execution

namespace Driver

variable {κ γ ι ω : Type} {d : Driver κ γ ι ω}

/-! ## The budget -/

/-- What is left of the tick's budget. -/
def left (d : Driver κ γ ι ω) : Nat := d.config.cyclesPerTick - d.tickCycles

/-- The budget is spent or it is not. -/
theorem not_spent_iff : ¬ d.spent = true ↔ d.tickCycles < d.config.cyclesPerTick := by
  unfold spent
  rw [decide_eq_true_iff, Nat.not_le]

/-- A tick with nothing left is spent. -/
theorem spent_of_left (h : d.left ≤ 0) : d.spent = true := by
  unfold left at h
  unfold spent
  rw [decide_eq_true_iff]
  omega

variable [Core κ] [Monitor ω κ Happening]

/-! ## A step -/

/-- What a step leaves behind, whether or not it failed. -/
theorem stepCore_eq :
    d.stepCore =
      ({ ({ d.tell .stepping with core := (Core.step d.core).state }.tell
            (.stepped (Core.step d.core).fault?)) with
          tickCycles := d.tickCycles + FreeRun.cost (Core.step d.core)
          totalCycles := d.totalCycles + FreeRun.cost (Core.step d.core) },
        (Core.step d.core).result.map fun _ => ()) := by
  have hcore : (d.tell .stepping).core = d.core := rfl
  simp only [Driver.stepCore, hcore, FreeRun.cost]
  cases (Core.step d.core).result with
  | error fault => rfl
  | ok n => rfl

theorem stepCore_core : d.stepCore.1.core = (Core.step d.core).state := by
  rw [stepCore_eq]
  rfl

theorem stepCore_tickCycles :
    d.stepCore.1.tickCycles = d.tickCycles + FreeRun.cost (Core.step d.core) := by
  rw [stepCore_eq]

theorem stepCore_totalCycles :
    d.stepCore.1.totalCycles = d.totalCycles + FreeRun.cost (Core.step d.core) := by
  rw [stepCore_eq]

theorem stepCore_config : d.stepCore.1.config = d.config := by
  rw [stepCore_eq]
  rfl

/-! ## The end of a tick -/

/-- At the end of a tick either nothing is due, or it is requested. -/
theorem endTick_cases :
    (due d.config.interruptByte d.core = none ∧
      d.endTick = { d with tickCycles := 0 }.tell .tickEnded) ∨
    ∃ byte, due d.config.interruptByte d.core = some byte ∧
      d.endTick =
        { { d with tickCycles := 0 }.tell .tickEnded with
          core := Core.interrupt d.core byte }.tell (.interrupted byte) := by
  have hconfig : ({ d with tickCycles := 0 }.tell .tickEnded).config = d.config := rfl
  have hcore : ({ d with tickCycles := 0 }.tell .tickEnded).core = d.core := rfl
  unfold due Driver.endTick
  simp only [hconfig, hcore]
  cases hbyte : d.config.interruptByte with
  | none =>
    refine .inl ⟨?_, rfl⟩
    exact ite_self none
  | some byte =>
    cases henabled : Core.interruptsEnabled d.core with
    | true =>
      refine .inr ⟨byte, rfl, ?_⟩
      simp only [if_true]
    | false =>
      refine .inl ⟨rfl, ?_⟩
      simp only [Bool.false_eq_true, if_false]

/-- The next tick begins with nothing spent. -/
theorem endTick_tickCycles : d.endTick.tickCycles = 0 := by
  rcases endTick_cases (d := d) with ⟨_, htick⟩ | ⟨byte, _, htick⟩
  · rw [htick]
    rfl
  · rw [htick]
    rfl

theorem endTick_totalCycles : d.endTick.totalCycles = d.totalCycles := by
  rcases endTick_cases (d := d) with ⟨_, htick⟩ | ⟨byte, _, htick⟩
  · rw [htick]
    rfl
  · rw [htick]
    rfl

theorem endTick_config : d.endTick.config = d.config := by
  rcases endTick_cases (d := d) with ⟨_, htick⟩ | ⟨byte, _, htick⟩
  · rw [htick]
    rfl
  · rw [htick]
    rfl

/-! ## A round of the loop -/

/-- A running machine that is about to make a step. -/
def readied (d : Driver κ γ ι ω) : Driver κ γ ι ω :=
  { d.tell (.tested true) with passBreakpoint := false }

/-- The loop of a running machine is left by a transition. -/
def leftBy (r : Driver κ γ ι ω × Except Fault Unit) : Driver κ γ ι ω × Except Fault Bool :=
  (r.1, r.2.map fun _ => false)

/-- What the next round of a running machine's loop comes to. A round that ends
the loop does so however many rounds might have followed. -/
inductive Round (d : Driver κ γ ι ω) : Prop
  /-- The budget is spent. -/
  | spent (hspent : d.spent = true) (hrun : ∀ steps, runSteps steps d = (d.endTick, .ok true))
  /-- The core can run no further, and that is the end. -/
  | ends (hspent : ¬ d.spent = true)
    (hrun : ∀ steps, runSteps (steps + 1) d = leftBy ((d.tell (.tested false)).transition .stop))
  /-- The core can run no further, and only the tick ends. -/
  | waits (hspent : ¬ d.spent = true)
    (hrun : ∀ steps, runSteps (steps + 1) d = ((d.tell (.tested false)).endTick, .ok true))
  /-- There is a breakpoint. -/
  | breaks (hspent : ¬ d.spent = true) (hable : Core.canRun d.core = true)
    (hpass : d.passBreakpoint = false)
    (hbreak : d.debugger.shouldBreak (Core.pc d.core) = true)
    (hrun : ∀ steps, runSteps (steps + 1) d =
      leftBy (((d.tell (.tested true)).tell .breakpointHit).transition .breakpointHit))
  /-- A step fails. -/
  | fails {fault : Fault} (hspent : ¬ d.spent = true)
    (hpass : d.passBreakpoint = true ∨ d.debugger.shouldBreak (Core.pc d.core) = false)
    (hstep : d.readied.stepCore.2 = .error fault)
    (hrun : ∀ steps, runSteps (steps + 1) d = (d.readied.stepCore.1, .error fault))
  /-- A step is made. -/
  | goes (hspent : ¬ d.spent = true)
    (hpass : d.passBreakpoint = true ∨ d.debugger.shouldBreak (Core.pc d.core) = false)
    (hstep : d.readied.stepCore.2 = .ok ())
    (hrun : ∀ steps, runSteps (steps + 1) d = runSteps steps d.readied.stepCore.1)

/-- A core that cannot run ends the loop. -/
theorem round_of_unable (hspent : ¬ d.spent = true) (hable : Core.canRun d.core = false) :
    d.Round := by
  by_cases honce : d.config.runOnce = true
  · refine .ends hspent fun steps => ?_
    unfold runSteps testCore
    rw [if_neg hspent, hable]
    exact if_pos honce
  · refine .waits hspent fun steps => ?_
    unfold runSteps testCore
    rw [if_neg hspent, hable]
    exact if_neg honce

/-- A round that comes to a breakpoint makes no step. -/
theorem round_of_break (hspent : ¬ d.spent = true) (hable : Core.canRun d.core = true)
    (hcheck : (!d.passBreakpoint && d.debugger.shouldBreak (Core.pc d.core)) = true) :
    d.Round := by
  obtain ⟨hpass, hbreak⟩ := (Bool.and_eq_true _ _).mp hcheck
  rw [Bool.not_eq_true'] at hpass
  -- the mark is not set, so that taking it away changes nothing
  have hsame : d.readied = d.tell (.tested true) := by
    have hpass : (d.tell (.tested true)).passBreakpoint = false := hpass
    unfold readied
    rw [← hpass]
  refine .breaks hspent hable hpass hbreak fun steps => ?_
  rw [← hsame]
  unfold runSteps testCore
  rw [if_neg hspent, hable]
  exact if_pos hcheck

theorem round_of_step (hspent : ¬ d.spent = true) (hable : Core.canRun d.core = true)
    (hcheck : ¬ (!d.passBreakpoint && d.debugger.shouldBreak (Core.pc d.core)) = true) :
    d.Round := by
  have hpass : d.passBreakpoint = true ∨ d.debugger.shouldBreak (Core.pc d.core) = false := by
    rwa [Bool.and_eq_true, not_and_or, Bool.not_eq_true, Bool.not_eq_true,
      Bool.not_eq_false'] at hcheck
  have hstepped {result : Except Fault Unit} (hstep : d.readied.stepCore.2 = result) :
      ({ d.tell (.tested true) with passBreakpoint := false } : Driver κ γ ι ω).stepCore =
        (d.readied.stepCore.1, result) := Prod.ext rfl hstep
  cases hstep : d.readied.stepCore.2 with
  | error fault =>
    refine .fails hspent hpass hstep fun steps => ?_
    rw [runSteps, if_neg hspent]
    unfold testCore
    rw [hable]
    refine (if_neg hcheck).trans ?_
    rw [hstepped hstep]
  | ok =>
    refine .goes hspent hpass hstep fun steps => ?_
    rw [runSteps, if_neg hspent]
    unfold testCore
    rw [hable]
    refine (if_neg hcheck).trans ?_
    rw [hstepped hstep]

/-- The ways in which a round can go. -/
theorem round (d : Driver κ γ ι ω) : d.Round := by
  by_cases hspent : d.spent = true
  · refine .spent hspent fun steps => ?_
    cases steps <;> simp only [runSteps, hspent, if_true]
  · cases hable : Core.canRun d.core with
    | false => exact round_of_unable hspent hable
    | true =>
      by_cases hcheck : (!d.passBreakpoint && d.debugger.shouldBreak (Core.pc d.core)) = true
      · exact round_of_break hspent hable hcheck
      · exact round_of_step hspent hable hcheck

/-! ## The limit of a tick -/

section Limit

variable (hcost : ∀ (core : κ) n, (Core.step core).result = .ok n → 0 < n)

include hcost

/-- A step that costs something brings the end of the tick nearer. -/
theorem left_stepCore (hspent : ¬ d.spent = true) (hok : d.stepCore.2 = .ok ()) :
    d.stepCore.1.left < d.left := by
  have hlt := not_spent_iff.mp hspent
  have hpos : 0 < FreeRun.cost (Core.step d.core) := by
    rw [stepCore_eq] at hok
    unfold FreeRun.cost
    cases hresult : (Core.step d.core).result with
    | error fault =>
      simp only [hresult] at hok
      cases hok
    | ok n => exact hcost d.core n hresult
  unfold left
  rw [stepCore_config, stepCore_tickCycles]
  omega

/-- The loop of a running machine ends before any limit that covers the
budget. -/
theorem runSteps_limit {a b : Nat} {d : Driver κ γ ι ω} (ha : d.left ≤ a)
    (hb : d.left ≤ b) : runSteps a d = runSteps b d := by
  induction a generalizing b d with
  | zero =>
    have hspent := spent_of_left ha
    cases b <;> simp only [runSteps, hspent, if_true]
  | succ a ih =>
    cases b with
    | zero =>
      have hspent := spent_of_left hb
      simp only [runSteps, hspent, if_true]
    | succ b =>
      cases d.round with
      | spent _ hrun => rw [hrun, hrun]
      | ends _ hrun => rw [hrun, hrun]
      | waits _ hrun => rw [hrun, hrun]
      | breaks _ _ _ _ hrun => rw [hrun, hrun]
      | fails _ _ _ hrun => rw [hrun, hrun]
      | goes hspent _ hstep hrun =>
        have hnearer : d.readied.stepCore.1.left < d.left := left_stepCore hcost hspent hstep
        rw [hrun, hrun]
        exact ih (by omega) (by omega)

/-- So does the rest of a tick on behalf of the debugger. -/
theorem finishSteps_limit {a b : Nat} {d : Driver κ γ ι ω} (ha : d.left ≤ a)
    (hb : d.left ≤ b) : finishSteps a d = finishSteps b d := by
  induction a generalizing b d with
  | zero =>
    have hspent := spent_of_left ha
    cases b <;> simp only [finishSteps, hspent, if_true]
  | succ a ih =>
    by_cases hspent : d.spent = true
    · cases b <;> simp only [finishSteps, hspent, if_true]
    · cases b with
      | zero => exact absurd (spent_of_left hb) hspent
      | succ b =>
        unfold finishSteps testCore
        rw [if_neg hspent, if_neg hspent]
        cases Core.canRun d.core with
        | false => rfl
        | true =>
          have htested : ¬ (d.tell (.tested true)).spent = true := hspent
          dsimp only
          cases hstep : (d.tell (.tested true)).stepCore with
          | mk d' result =>
            have hnearer := left_stepCore hcost htested
            rw [hstep] at hnearer
            cases result with
            | error fault => rfl
            | ok =>
              have hleft : d'.left < d.left := hnearer rfl
              exact ih (by omega) (by omega)

variable [Governor γ] [Input ι]

/-- The limit of a tick is of no account: as long as every step costs something,
any limit that covers what is left of the budget gives the whole tick. -/
theorem performWithin_eq_perform {limit : Nat} (hlimit : d.left ≤ limit) :
    d.performWithin limit = d.perform := by
  unfold perform performWithin
  cases d.state with
  | running =>
    have hloop : runSteps limit d.isDue.2 = runSteps d.left d.isDue.2 :=
      runSteps_limit hcost hlimit (Nat.le_refl _)
    dsimp only
    unfold performRunning
    rw [hloop]
    rfl
  | paused => rfl
  | stepping =>
    have hloop : finishSteps limit (d.poll true).1 =
        finishSteps d.left (d.poll true).1 :=
      finishSteps_limit hcost hlimit (Nat.le_refl _)
    dsimp only
    unfold performStepping
    cases hpoll : d.poll true with
    | mk d' result =>
      rw [hpoll] at hloop
      cases result with
      | error fault => rfl
      | ok request =>
        dsimp only at hloop ⊢
        rw [hloop]
        rfl
  | stopped => rfl

end Limit

end Driver

end Retrocore.Execution
