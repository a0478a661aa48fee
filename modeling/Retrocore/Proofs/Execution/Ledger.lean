import Mathlib.Algebra.GroupWithZero.Nat
import Retrocore.Proofs.Costs.Bounds
import Retrocore.Proofs.Execution.Lasting

/-!
# The account of a driver's ticks

A ledger is a monitor that enters what each successful step cost under the tick
in which it was made, from one end of a tick to the next, however many calls of
the driver that took. The driver itself keeps two sums only: that of the running
tick, which it forgets at the end, and that of everything.

`Balanced` ties the two together. Its key is that a step is made while the tick
is below its budget, so that a tick goes over it by one step at most.
-/

namespace Retrocore.Execution

variable {κ γ ι ω : Type}

/-! ## Accounts -/

/-- What the steps of a tick cost, oldest first. -/
structure Tick where
  costs : List Nat := []
  /-- Whether the core could run when it was last asked. A tick that ends after
  it could not has been cut short. -/
  able : Bool := true
  deriving DecidableEq, Repr

/-- What a tick has spent. -/
def Tick.spent (t : Tick) : Nat := t.costs.sum

/-- The ticks that have ended, the one that is running, and how many steps were
made or tried. -/
structure Account where
  ended : List Tick := []
  running : Tick := {}
  steps : Nat := 0
  deriving DecidableEq, Repr

namespace Account

/-- What a step is entered with; one that fails is not entered. -/
def charge (ran : Ran κ) : List Nat :=
  match ran.result with
  | .ok n => [n]
  | .error _ => []

/-- A step is charged with what it costs, and one that fails with nothing. -/
theorem sum_charge (ran : Ran κ) : (charge ran).sum = FreeRun.cost ran := by
  unfold charge FreeRun.cost
  cases ran.result with
  | ok n => exact List.sum_singleton
  | error fault => rfl

/-- The costs of all steps. -/
def costs (a : Account) : List Nat := a.ended.flatMap Tick.costs ++ a.running.costs

variable [Core κ]

/-- The account after something has happened with the core. -/
def enter (a : Account) (core : κ) : Happening → Account
  | .tested able => { a with running.able := able }
  | .stepping =>
    { a with
      running.costs := a.running.costs ++ charge (Core.step core)
      steps := a.steps + 1 }
  | .tickEnded => { a with ended := a.ended ++ [a.running], running := {} }
  | _ => a

theorem costs_stepping (a : Account) (core : κ) :
    (a.enter core .stepping).costs = a.costs ++ charge (Core.step core) :=
  (List.append_assoc _ _ _).symm

/-- The end of a tick loses nothing. -/
theorem costs_tickEnded (a : Account) (core : κ) : (a.enter core .tickEnded).costs = a.costs := by
  show (a.ended ++ [a.running]).flatMap Tick.costs ++ [] = _
  rw [List.append_nil, List.flatMap_append, List.flatMap_singleton]
  rfl

end Account

/-! ## The monitor -/

/-- A monitor, and the account of what it has heard. -/
structure Ledger (ω : Type) where
  inner : ω
  account : Account := {}

instance [Core κ] [Monitor ω κ Happening] : Monitor (Ledger ω) κ Happening where
  hear w core what := ⟨Monitor.hear w.inner core what, w.account.enter core what⟩

namespace Driver

/-- The account of a driver with a ledger. -/
def account (d : Driver κ γ ι (Ledger ω)) : Account := d.monitor.account

variable [Core κ] [Monitor ω κ Happening] {d : Driver κ γ ι (Ledger ω)}

/-- A step is entered in the account. -/
theorem account_stepCore : d.stepCore.1.account = d.account.enter d.core .stepping := by
  rw [stepCore_eq]
  rfl

/-- An interrupt is not entered. -/
theorem account_endTick : d.endTick.account = d.account.enter d.core .tickEnded := by
  rcases endTick_cases (d := d) with ⟨_, htick⟩ | ⟨byte, _, htick⟩
  · rw [htick]
    rfl
  · rw [htick]
    rfl

theorem account_transition (event : Event) : (d.transition event).1.account = d.account := by
  unfold transition
  cases d.state.on event with
  | none => rfl
  | some next => rfl

/-! ## The number of steps -/

theorem steps_endTick (d : Driver κ γ ι (Ledger ω)) :
    d.endTick.account.steps = d.account.steps := by
  rw [account_endTick]
  rfl

theorem steps_stepCore (d : Driver κ γ ι (Ledger ω)) :
    d.stepCore.1.account.steps = d.account.steps + 1 := by
  rw [account_stepCore]
  rfl

/-- The loop of a running machine makes as many steps as its limit or fewer. -/
theorem steps_runSteps (limit : Nat) (d : Driver κ γ ι (Ledger ω)) :
    (runSteps limit d).1.account.steps ≤ d.account.steps + limit := by
  induction limit generalizing d with
  | zero =>
    unfold runSteps
    split
    next => exact Nat.le_of_eq (steps_endTick d)
    next => exact Nat.le_refl _
  | succ limit ih =>
    have hnone : d.account.steps ≤ d.account.steps + (limit + 1) := Nat.le_add_right _ _
    have hstep : d.readied.stepCore.1.account.steps = d.account.steps + 1 := steps_stepCore d.readied
    cases d.round with
    | spent _ hrun =>
      rw [hrun]
      exact steps_endTick d ▸ hnone
    | ends _ hrun =>
      rw [hrun]
      exact account_transition (d := d.tell (.tested false)) .stop ▸ hnone
    | waits _ hrun =>
      rw [hrun]
      exact steps_endTick (d.tell (.tested false)) ▸ hnone
    | breaks _ _ _ _ hrun =>
      rw [hrun]
      exact account_transition (d := (d.tell (.tested true)).tell .breakpointHit) .breakpointHit ▸
        hnone
    | fails _ _ _ hrun =>
      rw [hrun]
      show d.readied.stepCore.1.account.steps ≤ d.account.steps + (limit + 1)
      omega
    | goes _ _ _ hrun =>
      rw [hrun]
      have hrest := ih d.readied.stepCore.1
      omega

/-- So does the rest of a tick on behalf of the debugger. -/
theorem steps_finishSteps (limit : Nat) (d : Driver κ γ ι (Ledger ω)) :
    (finishSteps limit d).1.account.steps ≤ d.account.steps + limit := by
  induction limit generalizing d with
  | zero =>
    unfold finishSteps
    dsimp only
    split
    next => exact Nat.le_of_eq (steps_endTick d)
    next => exact Nat.le_refl _
  | succ limit ih =>
    have hnone : d.account.steps ≤ d.account.steps + (limit + 1) := Nat.le_add_right _ _
    unfold finishSteps testCore
    split
    next => exact steps_endTick d ▸ hnone
    next =>
      cases Core.canRun d.core with
      | false =>
        dsimp only
        rw [steps_endTick]
        exact hnone
      | true =>
        have hstep := steps_stepCore (d.tell (.tested true))
        have htold : (d.tell (.tested true)).account.steps = d.account.steps := rfl
        dsimp only
        split
        next d₁ fault heq =>
          rw [heq] at hstep
          dsimp only at hstep ⊢
          omega
        next d₁ heq =>
          rw [heq] at hstep
          have hrest := ih d₁
          dsimp only at hstep
          omega

end Driver

/-! ## The balance -/

/-- The sums that the driver keeps are those of the account, and its ticks keep
close to the budget. A budget of nothing is no budget. -/
structure Balanced (budget : Nat) (d : Driver κ γ ι (Ledger ω)) : Prop where
  budget_eq : d.config.cyclesPerTick = budget
  running : d.tickCycles = d.account.running.spent
  total : d.totalCycles = d.account.costs.sum
  near : 0 < budget → d.tickCycles < budget + 24
  ended : 0 < budget → ∀ t ∈ d.account.ended,
    t.spent < budget + 24 ∧ (t.able = true → budget ≤ t.spent)

namespace Balanced

variable {budget : Nat} {d d' : Driver κ γ ι (Ledger ω)}

theorem new (core : κ) (governor : γ) (input : ι) (monitor : ω) (config : Config) :
    Balanced config.cyclesPerTick
      (Driver.new core governor input ({ inner := monitor } : Ledger ω) config) where
  budget_eq := rfl
  running := rfl
  total := rfl
  near _ := Nat.zero_lt_of_lt (Nat.lt_add_of_pos_right (by decide))
  ended _ t ht := absurd ht List.not_mem_nil

/-- The core does not matter, nor what the core was found able to. -/
theorem frame (h : Balanced budget d) (hconfig : d'.config = d.config)
    (htick : d'.tickCycles = d.tickCycles) (htotal : d'.totalCycles = d.totalCycles)
    (hended : d'.account.ended = d.account.ended)
    (hrunning : d'.account.running.costs = d.account.running.costs) : Balanced budget d' := by
  have hcosts : d'.account.costs = d.account.costs := by
    unfold Account.costs
    rw [hended, hrunning]
  refine ⟨?_, ?_, ?_, ?_, ?_⟩
  · rw [hconfig]
    exact h.budget_eq
  · rw [htick, h.running]
    exact congrArg List.sum hrunning.symm
  · rw [htotal, hcosts]
    exact h.total
  · rw [htick]
    exact h.near
  · rw [hended]
    exact h.ended

variable [Core κ] [Monitor ω κ Happening]

theorem tested (h : Balanced budget d) (able : Bool) : Balanced budget (d.tell (.tested able)) :=
  h.frame rfl rfl rfl rfl rfl

theorem remark (h : Balanced budget d) {what : Happening} (hwhat : what.isRemark = true) :
    Balanced budget (d.tell what) := by
  cases what with
  | tested able => exact h.tested able
  | stepping => cases hwhat
  | tickEnded => cases hwhat
  | _ => exact h.frame rfl rfl rfl rfl rfl

/-- A step is made while there is budget left, and goes over it by less than it
costs. -/
theorem step (h : Balanced budget d) (hpriced : Core.Priced κ) (hresting : d.Resting) :
    Balanced budget d.stepCore.1 := by
  have hcost : FreeRun.cost (Core.step d.core) ≤ 24 := by
    unfold FreeRun.cost
    cases hresult : (Core.step d.core).result with
    | ok n => exact (hpriced d.core n hresult).2
    | error fault => exact Nat.zero_le 24
  refine ⟨?_, ?_, ?_, ?_, ?_⟩
  · rw [Driver.stepCore_config]
    exact h.budget_eq
  · rw [Driver.stepCore_tickCycles, Driver.account_stepCore, h.running]
    show _ = (d.account.running.costs ++ Account.charge (Core.step d.core)).sum
    rw [List.sum_append, Account.sum_charge]
    rfl
  · rw [Driver.stepCore_totalCycles, Driver.account_stepCore, Account.costs_stepping,
      List.sum_append, Account.sum_charge, h.total]
  · intro hpos
    -- only one step can lead from below the budget to beyond it
    have hlt := hresting (h.budget_eq ▸ hpos)
    rw [h.budget_eq] at hlt
    rw [Driver.stepCore_tickCycles]
    omega
  · rw [Driver.account_stepCore]
    exact h.ended

/-- The tick that ends joins those that have. -/
theorem endTick (h : Balanced budget d)
    (hspent : d.account.running.able = true → d.spent = true) : Balanced budget d.endTick := by
  refine ⟨?_, ?_, ?_, ?_, ?_⟩
  · rw [Driver.endTick_config]
    exact h.budget_eq
  · rw [Driver.endTick_tickCycles, Driver.account_endTick]
    rfl
  · rw [Driver.endTick_totalCycles, Driver.account_endTick, Account.costs_tickEnded]
    exact h.total
  · intro hpos
    rw [Driver.endTick_tickCycles]
    omega
  · intro hpos t ht
    rw [Driver.account_endTick] at ht
    rcases List.mem_append.mp ht with ht | ht
    · exact h.ended hpos t ht
    · rw [List.mem_singleton] at ht
      subst ht
      -- the tick that has just ended is the one the driver has counted
      rw [← h.running]
      refine ⟨h.near hpos, ?_⟩
      intro hable
      have hfull : d.config.cyclesPerTick ≤ d.tickCycles := of_decide_eq_true (hspent hable)
      rw [h.budget_eq] at hfull
      exact hfull

/-- However a driver is driven, its account balances. -/
theorem lasting (hpriced : Core.Priced κ) (budget : Nat) :
    Driver.Lasting (Balanced budget : Driver κ γ ι (Ledger ω) → Prop) where
  frame h _ hmonitor hconfig htick htotal :=
    have haccount := congrArg Ledger.account hmonitor
    h.frame hconfig htick htotal (congrArg Account.ended haccount)
      (congrArg (Tick.costs ∘ Account.running) haccount)
  remark h hwhat := h.remark hwhat
  step h hresting := h.step hpriced hresting
  endTick h hspent := h.endTick fun _ => hspent
  stuck h := h.tested false
  endStuck h := (h.tested false).endTick fun hable => by cases hable

end Balanced

end Retrocore.Execution
