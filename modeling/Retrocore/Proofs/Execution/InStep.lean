import Retrocore.Proofs.Execution.Ticks

/-!
# In step with the free run

`InStep` ties the count of cycles spent of a tick to a position in the free run
of the core. Every elementary action of the driver keeps it: a note in the
chronicle, a step of the core and the end of a tick.
-/

namespace Retrocore.Execution

variable {κ γ ι ω : Type} [Core κ]

/-- The state of a free run that corresponds to a driver between two calls. The
driver ends a tick as soon as it can, also where no interrupt is due; the free
run is then at the end of its round. -/
structure Sync (d : Driver κ γ ι (Chronicle ω)) (r : FreeRun κ) : Prop where
  core : r.core = d.core
  spent : r.spent = d.tickCycles ∨
    (d.tickCycles = 0 ∧ d.config.cyclesPerTick ≤ r.spent ∧
      due d.config.interruptByte d.core = none)

/-- The driver has done to its core what it notes, and as long as nothing went
wrong, this is what the free run does. -/
structure InStep (config : Config) (start : FreeRun κ)
    (d : Driver κ γ ι (Chronicle ω)) : Prop where
  same : d.config = config
  replays : d.core = Core.after start.core (callsOf d.log)
  follows : ∃ k, callsOf (fineLog d.log) = start.calls config k ∧
    (AllFine d.log → Sync d (start.state config k))

variable {config : Config} {start : FreeRun κ} {d : Driver κ γ ι (Chronicle ω)}

/-! ## Where the free run goes on -/

/-- Before the budget is spent, the free run makes the step that the driver
makes. -/
theorem Sync.step {r : FreeRun κ} (h : Sync d r)
    (hlt : d.tickCycles < d.config.cyclesPerTick) :
    r.next d.config =
      (.step, ⟨(Core.step d.core).state,
        d.tickCycles + FreeRun.cost (Core.step d.core)⟩) := by
  obtain ⟨rcore, rspent⟩ := r
  obtain ⟨hcore, hspent⟩ := h
  subst hcore
  rcases hspent with hspent | ⟨hzero, hover, hdue⟩
  · subst hspent
    rw [FreeRun.next, if_pos hlt]
    rfl
  · -- the free run is at the end of a round after which nothing is due
    rw [FreeRun.next, if_neg (Nat.not_lt.mpr hover), hdue, hzero]
    rfl

/-- Once the budget is spent, both request the interrupt that is due. -/
theorem Sync.interrupt {r : FreeRun κ} (h : Sync d r)
    (hpos : 0 < d.config.cyclesPerTick)
    (hover : d.config.cyclesPerTick ≤ d.tickCycles) {byte : Byte}
    (hdue : due d.config.interruptByte d.core = some byte) :
    r.next d.config = (.interrupt byte, ⟨Core.interrupt d.core byte, 0⟩) := by
  obtain ⟨rcore, rspent⟩ := r
  obtain ⟨hcore, hspent⟩ := h
  subst hcore
  rcases hspent with hspent | ⟨hzero, _⟩
  · subst hspent
    rw [FreeRun.next, if_neg (Nat.not_lt.mpr hover), hdue]
  · omega

/-- Once the budget is spent and nothing is due, the driver is at the end of a
round. -/
theorem Sync.end_round {r : FreeRun κ} (h : Sync d r)
    (hpos : 0 < d.config.cyclesPerTick)
    (hover : d.config.cyclesPerTick ≤ d.tickCycles)
    (hdue : due d.config.interruptByte d.core = none) :
    Sync { d with tickCycles := 0 } r := by
  obtain ⟨hcore, hspent⟩ := h
  rcases hspent with hspent | ⟨hzero, _⟩
  · exact ⟨hcore, .inr ⟨rfl, hspent ▸ hover, hdue⟩⟩
  · omega

/-! ## Elementary actions -/

namespace InStep

/-- A new driver is at the start of a free run. -/
theorem new (core : κ) (governor : γ) (input : ι) (monitor : ω) (config : Config) :
    InStep config { core }
      (Driver.new core governor input ({ inner := monitor } : Chronicle ω) config) where
  same := rfl
  replays := rfl
  follows := ⟨0, rfl, fun _ => ⟨rfl, .inl rfl⟩⟩

/-- Nothing but the core, the cycles spent, the configuration and the chronicle
matters. -/
theorem frame (h : InStep config start d) {d' : Driver κ γ ι (Chronicle ω)}
    (hcore : d'.core = d.core) (hspent : d'.tickCycles = d.tickCycles)
    (hconfig : d'.config = d.config) (hlog : d'.log = d.log) :
    InStep config start d' := by
  obtain ⟨k, hcalls, hsync⟩ := h.follows
  refine ⟨hconfig.trans h.same, ?_, k, ?_, ?_⟩
  · rw [hcore, hlog]
    exact h.replays
  · rw [hlog]
    exact hcalls
  · intro hfine
    rw [hlog] at hfine
    obtain ⟨hsame, hround⟩ := hsync hfine
    refine ⟨hsame.trans hcore.symm, ?_⟩
    rw [hspent, hconfig, hcore]
    exact hround

/-- A call on the core, noted: what the free run does next if nothing has gone
wrong. -/
theorem call (h : InStep config start d) {d' : Driver κ γ ι (Chronicle ω)}
    {what : Happening} {c : Call} (hcall : what.call? = some c)
    (hconfig : d'.config = d.config) (hlog : d'.log = d.log ++ [what])
    (hcore : d'.core = Core.call d.core c)
    (hnext : AllFine (d.log ++ [what]) → ∀ r, Sync d r →
      (r.next d.config).1 = c ∧ Sync d' (r.next d.config).2) :
    InStep config start d' := by
  obtain ⟨k, hcalls, hsync⟩ := h.follows
  have hsnoc : callsOf (d.log ++ [what]) = callsOf d.log ++ [c] := by
    rw [callsOf_snoc, hcall]
    rfl
  have hreplays : d'.core = Core.after start.core (callsOf d'.log) := by
    rw [hlog, hsnoc, Core.after_append, ← h.replays, hcore]
    rfl
  by_cases hfine : AllFine d'.log
  · rw [hlog] at hfine
    have hbefore := (allFine_append.mp hfine).1
    obtain ⟨hsame, hafter⟩ := hnext hfine _ (hsync hbefore)
    rw [h.same] at hsame hafter
    refine ⟨hconfig.trans h.same, hreplays, k + 1, ?_, fun _ => hafter⟩
    rw [fineLog_eq hbefore] at hcalls
    rw [hlog, fineLog_eq hfine, hsnoc, hcalls, ← hsame]
    rfl
  · -- the call does not count, and neither does any that follows
    refine ⟨hconfig.trans h.same, hreplays, k, ?_, fun hall => absurd hall hfine⟩
    rw [hlog] at hfine ⊢
    rw [fineLog_append hfine]
    exact hcalls

variable [Monitor ω κ Happening]

/-- Noting what is no call. -/
theorem tell (h : InStep config start d) {what : Happening}
    (hcall : what.call? = none) : InStep config start (d.tell what) := by
  obtain ⟨k, hcalls, hsync⟩ := h.follows
  refine ⟨h.same, ?_, k, ?_, ?_⟩
  · rw [Driver.log_tell, callsOf_snoc_none hcall]
    exact h.replays
  · rw [Driver.log_tell, callsOf_fineLog_append hcall]
    exact hcalls
  · intro hfine
    obtain ⟨hcore, hspent⟩ := hsync (allFine_append.mp hfine).1
    exact ⟨hcore, hspent⟩

end InStep

/-! ### A step -/

variable [Monitor ω κ Happening]

theorem stepCore_log :
    d.stepCore.1.log =
      (d.tell .stepping).log ++ [.stepped (Core.step d.core).fault?] := by
  rw [Driver.stepCore_eq]
  rfl

/-- A step within the budget is the free run's next call. -/
theorem InStep.stepCore (h : InStep config start d)
    (hlt : AllFine d.log → d.tickCycles < d.config.cyclesPerTick) :
    InStep config start d.stepCore.1 := by
  have hcall :
      (Happening.stepped (Core.step d.core).fault?).call? = some .step := rfl
  have htold : InStep config start (d.tell .stepping) := h.tell rfl
  refine htold.call hcall Driver.stepCore_config stepCore_log Driver.stepCore_core ?_
  intro hfine r hr
  have hbefore := (allFine_append.mp (allFine_append.mp hfine).1).1
  have hr : Sync d r := ⟨hr.core, hr.spent⟩
  show (r.next d.config).1 = .step ∧ Sync d.stepCore.1 (r.next d.config).2
  rw [hr.step (hlt hbefore)]
  exact ⟨rfl, Driver.stepCore_core.symm, .inl Driver.stepCore_tickCycles.symm⟩

/-! ### The end of a tick -/

/-- The end of a spent tick is the end of the free run's round. -/
theorem InStep.endTick (h : InStep config start d) (hpos : 0 < config.cyclesPerTick)
    (hover : AllFine d.log → d.config.cyclesPerTick ≤ d.tickCycles) :
    InStep config start d.endTick := by
  have hpos : 0 < d.config.cyclesPerTick := h.same ▸ hpos
  rcases Driver.endTick_cases (d := d) with ⟨hdue, htick⟩ | ⟨byte, hdue, htick⟩
  · rw [htick]
    obtain ⟨k, hcalls, hsync⟩ := h.follows
    have hreset : InStep config start { d with tickCycles := 0 } := by
      refine ⟨h.same, h.replays, k, hcalls, ?_⟩
      intro hfine
      exact (hsync hfine).end_round hpos (hover hfine) hdue
    exact hreset.tell rfl
  · rw [htick]
    have hcall : (Happening.interrupted byte).call? = some (.interrupt byte) := rfl
    have htold : InStep config start (d.tell .tickEnded) := h.tell rfl
    refine htold.call hcall rfl rfl rfl ?_
    intro hfine r hr
    have hbefore := (allFine_append.mp (allFine_append.mp hfine).1).1
    have hr : Sync d r := ⟨hr.core, hr.spent⟩
    show (r.next d.config).1 = .interrupt byte ∧ Sync _ (r.next d.config).2
    rw [hr.interrupt hpos (hover hbefore) hdue]
    exact ⟨rfl, rfl, .inl rfl⟩

end Retrocore.Execution
