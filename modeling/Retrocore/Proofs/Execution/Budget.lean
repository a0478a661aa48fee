import Retrocore.Proofs.Costs.Lr35902
import Retrocore.Proofs.Costs.Z80
import Retrocore.Proofs.Execution.Ledger

/-!
# A tick ends, close to its budget

Both loops of a driver end when the budget of the tick is spent. That they get
there rests on the price of a step alone: at least one cycle, so that a budget
of `n` is spent after `n` steps, and at most 24, so that it is not overdrawn by
more. `ticks_end` says so of the five processors, whatever is done to the driver
and its core between two calls.
-/

namespace Retrocore.Execution

variable {κ γ ι ω : Type}

/-! ## What may be done from outside -/

/-- An operation on the driver, a run of a number of ticks, or any change of the
core behind the driver's back. -/
inductive Deed (κ : Type) where
  | op (op : Driver.Op)
  | run (ticks : Nat)
  | alter (core : κ)

namespace Driver

variable [Core κ] [Governor γ] [Input ι] [Monitor ω κ Happening]

/-- The driver afterwards. A fault does not keep it from going on. -/
def under (d : Driver κ γ ι ω) : Deed κ → Driver κ γ ι ω
  | .op op => d.apply op
  | .run ticks => (d.run ticks).1
  | .alter core => { d with core }

def underAll (d : Driver κ γ ι ω) (deeds : List (Deed κ)) : Driver κ γ ι ω :=
  deeds.foldl under d

end Driver

namespace Balanced

variable {budget : Nat} {d : Driver κ γ ι (Ledger ω)}

/-- What is done to the core from outside spends nothing. -/
theorem alter (h : Driver.Rests (Balanced budget) d) (core : κ) :
    Driver.Rests (Balanced budget) { d with core } :=
  ⟨h.holds.frame rfl rfl rfl rfl rfl, h.resting⟩

variable [Core κ] [Governor γ] [Input ι] [Monitor ω κ Happening]

/-- Every deed keeps the ledger balanced. -/
theorem under (h : Driver.Rests (Balanced budget) d) (hpriced : Core.Priced κ)
    (deed : Deed κ) : Driver.Rests (Balanced budget) (d.under deed) := by
  have hlasting := lasting (γ := γ) (ι := ι) (ω := ω) hpriced budget
  cases deed with
  | op op => exact hlasting.apply h op
  | alter core => exact alter h core
  | run ticks =>
    simp only [Driver.under, Driver.run]
    split
    next => exact h
    next => exact hlasting.performMany ticks (alter h _)

theorem underAll (h : Driver.Rests (Balanced budget) d) (hpriced : Core.Priced κ)
    (deeds : List (Deed κ)) : Driver.Rests (Balanced budget) (d.underAll deeds) := by
  induction deeds generalizing d with
  | nil => exact h
  | cons deed deeds ih => exact ih (under h hpriced deed)

end Balanced

/-! ## Ticks end -/

/-- The cycles of a driver with the given budget, going by its account. -/
structure Accounted (budget : Nat) (d : Driver κ γ ι (Ledger ω)) : Prop where
  /-- All cycles are those of the steps that succeeded. -/
  total : d.totalCycles = d.account.costs.sum
  /-- Those of the running tick are those of its steps, -/
  running : d.tickCycles = d.account.running.spent
  /-- and they are below the budget. -/
  below : 0 < budget → d.tickCycles < budget
  /-- A tick that has ended has spent its budget, unless the core could run no
  further, and in any case less than 24 cycles more. -/
  ended : 0 < budget → ∀ t ∈ d.account.ended,
    (t.able = true → budget ≤ t.spent) ∧ t.spent < budget + 24

/-- The ticks of all drivers of such a core end, close to their budget. -/
structure TicksEnd (κ : Type) [Core κ] : Prop where
  /-- A step that succeeds costs at least 1 cycle and at most 24. -/
  priced : ∀ (core : κ) (n : Nat), (Core.step core).result = .ok n → 1 ≤ n ∧ n ≤ 24
  /-- The loops return of their own accord: a limit on their steps makes no
  difference unless it is below the budget. -/
  returns : ∀ {γ ι ω : Type} [Monitor ω κ Happening] (d : Driver κ γ ι ω) (limit : Nat),
    d.config.cyclesPerTick ≤ limit →
      d.runSteps limit = d.runSteps d.config.cyclesPerTick ∧
        d.finishSteps limit = d.finishSteps d.config.cyclesPerTick
  /-- Until then, they make no more steps than the budget has cycles. -/
  steps : ∀ {γ ι ω : Type} [Monitor ω κ Happening] (d : Driver κ γ ι (Ledger ω)) (limit : Nat),
    (d.runSteps limit).1.account.steps ≤ d.account.steps + d.config.cyclesPerTick ∧
      (d.finishSteps limit).1.account.steps ≤ d.account.steps + d.config.cyclesPerTick
  /-- Whatever is done to a driver, its cycles are accounted for. -/
  accounted : ∀ {γ ι ω : Type} [Governor γ] [Input ι] [Monitor ω κ Happening] (core : κ)
    (governor : γ) (input : ι) (monitor : ω) (config : Config) (deeds : List (Deed κ)),
    let ledger : Ledger ω := { inner := monitor }
    let d := (Driver.new core governor input ledger config).underAll deeds
    d.config.cyclesPerTick = config.cyclesPerTick ∧ Accounted config.cyclesPerTick d

namespace TicksEnd

variable [Core κ]

/-- With every step at one cycle or more, no more steps are made than the budget has
cycles. -/
theorem returns_of_priced [Monitor ω κ Happening] (hpriced : Core.Priced κ)
    (d : Driver κ γ ι ω) {limit : Nat} (hlimit : d.config.cyclesPerTick ≤ limit) :
    d.runSteps limit = d.runSteps d.config.cyclesPerTick ∧
      d.finishSteps limit = d.finishSteps d.config.cyclesPerTick := by
  have hcost : ∀ (core : κ) n, (Core.step core).result = .ok n → 0 < n :=
    fun core n hn => (hpriced core n hn).1
  have hleft : d.left ≤ d.config.cyclesPerTick := Nat.sub_le _ _
  have hcovered := Nat.le_trans hleft hlimit
  exact ⟨Driver.runSteps_limit hcost hcovered hleft, Driver.finishSteps_limit hcost hcovered hleft⟩

/-- A limit below the budget bounds the steps by itself. -/
theorem steps_of_priced [Monitor ω κ Happening] (hpriced : Core.Priced κ)
    (d : Driver κ γ ι (Ledger ω)) (limit : Nat) :
    (d.runSteps limit).1.account.steps ≤ d.account.steps + d.config.cyclesPerTick ∧
      (d.finishSteps limit).1.account.steps ≤ d.account.steps + d.config.cyclesPerTick := by
  rcases Nat.le_total d.config.cyclesPerTick limit with hlimit | hlimit
  · obtain ⟨hrun, hfinish⟩ := returns_of_priced hpriced d hlimit
    rw [hrun, hfinish]
    exact ⟨d.steps_runSteps _, d.steps_finishSteps _⟩
  · have hbelow := Nat.add_le_add_left hlimit d.account.steps
    exact ⟨Nat.le_trans (d.steps_runSteps limit) hbelow,
      Nat.le_trans (d.steps_finishSteps limit) hbelow⟩

/-- The price of a step is all there is to it. -/
theorem of_priced (hpriced : Core.Priced κ) : TicksEnd κ where
  priced := hpriced
  returns d _ hlimit := returns_of_priced hpriced d hlimit
  steps d limit := steps_of_priced hpriced d limit
  accounted core governor input monitor config deeds := by
    intro ledger d
    have hnew : Driver.Rests (Balanced config.cyclesPerTick)
        (Driver.new core governor input ledger config) :=
      ⟨.new core governor input monitor config, fun hpos => hpos⟩
    obtain ⟨hbalanced, hresting⟩ := Balanced.underAll hnew hpriced deeds
    refine ⟨hbalanced.budget_eq, hbalanced.total, hbalanced.running, ?_, ?_⟩
    · have hbudget := hbalanced.budget_eq
      unfold Driver.Resting at hresting
      rw [hbudget] at hresting
      exact hresting
    · intro hpos t ht
      obtain ⟨hnear, hspent⟩ := hbalanced.ended hpos t ht
      exact ⟨hspent, hnear⟩

end TicksEnd

/-- **Ticks end, close to their budget**, on all five processors. -/
theorem ticks_end (μ δ ν ε : Type) [Mapper μ Byte] [Observer δ Byte Byte] [Mapper ν Word]
    [Observer ε Lmc.Port Word] :
    TicksEnd (I8080.Machine μ δ) ∧ TicksEnd (Z80.Machine μ δ) ∧ TicksEnd (Lr35902.Machine μ) ∧
      TicksEnd (Lmc.Machine ν ε) ∧ TicksEnd (Synacor.Machine ν δ) :=
  ⟨.of_priced I8080.Machine.priced, .of_priced Z80.Machine.priced,
    .of_priced Lr35902.Machine.priced, .of_priced Lmc.Machine.priced,
    .of_priced Synacor.Machine.priced⟩

/-- NOPs at 4 cycles each, with a budget of 10. A breakpoint cuts the first tick
in two; the second is still running. -/
example :
    let core : I8080.Machine Empty (Recorder Byte Byte) :=
      .start (.new (.ofList [0, 0, 0, 0, 0, 0, 0, 0]) 0)
    let config : Config := { cyclesPerTick := 10, debugMode := true }
    let ledger : Ledger Unit := { inner := () }
    let d := (Driver.new core () () ledger config).underAll
      [.op (.edit { breakpoints := [.ofAddress 2], debugMode := true }), .op .perform,
        .op (.transition .continue), .op .perform, .op (.performWithin 1)]
    d.account = ⟨[⟨[4, 4, 4], true⟩], ⟨[4], true⟩, 4⟩ ∧ d.totalCycles = 16 := by
  decide

end Retrocore.Execution
