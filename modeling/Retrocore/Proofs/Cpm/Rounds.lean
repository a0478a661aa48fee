import Retrocore.Cpm

/-!
# Rounds of a session

A session goes round: the core makes a step, the trap that it has sprung is
taken, and the session does what the trap asks for. `Session.Round` tells the
ways in which a round can go, and `Session.round` that there are no others. What
holds of whole runs follows by induction on the rounds that a run may take, one
case for each way.
-/

namespace Retrocore.Cpm

variable {κ : Type} [Core κ] [Host κ]

/-- A session makes no step with such a core. -/
def AtRest (core : κ) : Prop :=
  Core.canRun core = false ∨ Core.isHalted core = true ∧ Core.interruptsEnabled core = false

/-- The trap that the step from a core springs. -/
def sprungBy (core : κ) : Option Trap := (Host.takeTrap (Core.step core).state).1

/-- The core that a session goes on with after the step from a core. -/
def next (core : κ) : κ := (Host.takeTrap (Core.step core).state).2

/-- The core that a session makes its step number `i` from, counted from zero. -/
def course (core : κ) : Nat → κ
  | 0 => core
  | i + 1 => course (next core) i

namespace Session

variable {ω : Type} [Monitor ω κ Happening] {s : Session κ ω} {k : κ} {fault : Fault} {n : Nat}

/-- The console when it has printed some more. -/
def shows (s : Session κ ω) (bytes : List Byte) : Console := bytes.foldl Console.print s.console

/-- What the next round of a session comes to. A round that ends the run does so
however many rounds might have followed. -/
inductive Round (s : Session κ ω) : Prop
  /-- The core makes no step any more. -/
  | rest {left : Session κ ω} (hrest : AtRest s.core)
    (hrun : ∀ limit, runSteps (limit + 1) s = (left, some (.ok ())))
    (hcore : left.core = Core.stop s.core) (hconsole : left.console = s.console)
    (hfinished : left.finished = s.finished) (hcycles : left.cycles = s.cycles)
  /-- The step has failed. -/
  | broken {left : Session κ ω} {fault : Fault} (hawake : ¬ AtRest s.core)
    (hrun : ∀ limit, runSteps (limit + 1) s = (left, some (.error fault)))
    (hstep : Core.step s.core = ⟨left.core, .error fault⟩) (hconsole : left.console = s.console)
    (hfinished : left.finished = s.finished) (hcycles : left.cycles = s.cycles)
  /-- The program has finished. -/
  | finish {n : Nat} {left : Session κ ω} (hawake : ¬ AtRest s.core)
    (hrun : ∀ limit, runSteps (limit + 1) s = (left, some (.ok ())))
    (hstep : (Core.step s.core).result = .ok n) (htrap : sprungBy s.core = some .finish)
    (hcore : left.core = Core.stop (next s.core)) (hconsole : left.console = s.console)
    (hfinished : left.finished = true) (hcycles : left.cycles = s.cycles + n)
  /-- The system has been called. -/
  | call {n : Nat} {s' : Session κ ω} (hawake : ¬ AtRest s.core)
    (hrun : ∀ limit, runSteps (limit + 1) s = runSteps limit s')
    (hstep : (Core.step s.core).result = .ok n) (htrap : sprungBy s.core = some .call)
    (hcore : s'.core = next s.core)
    (hconsole : s'.console = s.shows ((answer (next s.core)).getD []))
    (hfinished : s'.finished = s.finished) (hcycles : s'.cycles = s.cycles + n)
  /-- No trap has been sprung. -/
  | plain {n : Nat} {s' : Session κ ω} (hawake : ¬ AtRest s.core)
    (hrun : ∀ limit, runSteps (limit + 1) s = runSteps limit s')
    (hstep : (Core.step s.core).result = .ok n) (htrap : sprungBy s.core = none)
    (hcore : s'.core = next s.core) (hconsole : s'.console = s.console)
    (hfinished : s'.finished = s.finished) (hcycles : s'.cycles = s.cycles + n)

omit [Host κ] in
theorem stepCore_of_error (hstep : Core.step s.core = ⟨k, .error fault⟩) :
    ∃ monitor, s.stepCore = ({ s with core := k, monitor }, .error fault) := by
  simp only [stepCore, tell, hstep]
  exact ⟨_, rfl⟩

omit [Host κ] in
/-- What a step costs is added up. -/
theorem stepCore_of_ok (hstep : Core.step s.core = ⟨k, .ok n⟩) :
    ∃ monitor,
      s.stepCore = ({ s with core := k, monitor, cycles := s.cycles + n }, .ok ()) := by
  simp only [stepCore, tell, hstep]
  exact ⟨_, rfl⟩

omit [Core κ] in
/-- A call changes nothing but the console. -/
theorem serve_eq (s : Session κ ω) :
    ∃ monitor, s.serve = { s with monitor, console := s.shows ((answer s.core).getD []) } := by
  unfold serve
  cases answer s.core with
  | some bytes => exact ⟨_, rfl⟩
  | none => exact ⟨_, rfl⟩

/-- At rest the session stops the core and ends without a fault, whatever the limit. -/
theorem runSteps_of_rest (hrest : AtRest s.core) :
    ∃ monitor, ∀ limit,
      runSteps (limit + 1) s = ({ s with core := Core.stop s.core, monitor }, some (.ok ())) := by
  by_cases hable : Core.canRun s.core = true
  · obtain hstopped | ⟨hhalted, hshut⟩ := hrest
    · rw [hstopped] at hable
      cases hable
    · refine ⟨(s.tell .haltedForGood).monitor, fun limit => ?_⟩
      simp only [runSteps, hable, hhalted, hshut]
      rfl
  · refine ⟨s.monitor, fun limit => ?_⟩
    rw [runSteps, if_pos (by simpa using hable)]
    rfl

/-- A core that is not at rest makes a step. -/
theorem runSteps_of_awake (hawake : ¬ AtRest s.core) (limit : Nat) :
    runSteps (limit + 1) s =
      match s.stepCore with
      | (s, .error fault) => (s, some (.error fault))
      | (s, .ok ()) =>
        let (trap, core) := Host.takeTrap s.core
        let s := { s with core }
        match trap with
        | none => runSteps limit s
        | some .call => runSteps limit s.serve
        | some .finish =>
          (({ s with finished := true }.tell (.finished s.cycles)).stopCore, some (.ok ())) := by
  obtain ⟨hable, hwoken⟩ := not_or.mp hawake
  have hgoes : (Core.isHalted s.core && !Core.interruptsEnabled s.core) = false := by
    simpa using hwoken
  rw [runSteps, if_neg (by simpa using hable), hgoes]
  exact if_neg Bool.false_ne_true

/-- The ways in which a round can go. -/
theorem round (s : Session κ ω) : s.Round := by
  by_cases hrest : AtRest s.core
  · obtain ⟨monitor, hrun⟩ := runSteps_of_rest hrest
    exact .rest hrest hrun rfl rfl rfl rfl
  · have hrun := runSteps_of_awake hrest
    cases hstep : Core.step s.core with
    | mk k result =>
      cases result with
      | error fault =>
        obtain ⟨monitor, hstepCore⟩ := stepCore_of_error hstep
        rw [hstepCore] at hrun
        exact .broken hrest hrun hstep rfl rfl rfl
      | ok n =>
        obtain ⟨monitor, hstepCore⟩ := stepCore_of_ok hstep
        rw [hstepCore] at hrun
        have hresult : (Core.step s.core).result = .ok n := by rw [hstep]
        cases htake : Host.takeTrap k with
        | mk trap core =>
          have htrap : sprungBy s.core = trap := by rw [sprungBy, hstep, htake]
          have hnext : core = next s.core := by rw [next, hstep, htake]
          simp only [htake] at hrun
          cases trap with
          | none => exact .plain hrest hrun hresult htrap hnext rfl rfl rfl
          | some trap =>
            cases trap with
            | finish =>
              exact .finish hrest hrun hresult htrap (by rw [← hnext]; rfl) rfl rfl rfl
            | call =>
              obtain ⟨monitor, hserve⟩ := serve_eq { s with core, monitor, cycles := s.cycles + n }
              simp only [hserve] at hrun
              exact .call hrest hrun hresult htrap hnext (by rw [← hnext]; rfl) rfl rfl

/-- A step that goes well and springs no trap is all that the round does. -/
theorem goes_on_of_ok (hawake : ¬ AtRest s.core) (hcost : (Core.step s.core).result = .ok n)
    (hnone : sprungBy s.core = none) :
    ∃ s' : Session κ ω, s'.core = next s.core ∧ s'.cycles = s.cycles + n ∧
      ∀ limit, runSteps (limit + 1) s = runSteps limit s' := by
  cases s.round with
  | rest hrest => exact absurd hrest hawake
  | broken _ _ hstep =>
    rw [hstep] at hcost
    cases hcost
  | finish _ _ _ htrap =>
    rw [hnone] at htrap
    cases htrap
  | call _ _ _ htrap =>
    rw [hnone] at htrap
    cases htrap
  | plain _ hrun hstep _ hsame _ _ hcycles =>
    rw [hcost] at hstep
    cases hstep
    exact ⟨_, hsame, hcycles, hrun⟩

/-! ## Runs -/

/-- A run that has not come to its end goes on from where it is, and no other
run goes on. -/
theorem runSteps_add (k n : Nat) (s : Session κ ω) :
    runSteps (k + n) s =
      if (runSteps k s).2 = none then runSteps n (runSteps k s).1 else runSteps k s := by
  induction k generalizing s with
  | zero =>
    rw [Nat.zero_add]
    exact (if_pos rfl).symm
  | succ k ih =>
    rw [Nat.succ_add_eq_add_succ, Nat.add_succ]
    cases s.round with
    | rest hrest hrun => rw [hrun, hrun, if_neg (by simp)]
    | broken hawake hrun => rw [hrun, hrun, if_neg (by simp)]
    | finish hawake hrun => rw [hrun, hrun, if_neg (by simp)]
    | call hawake hrun => rw [hrun, hrun, ih]
    | plain hawake hrun => rw [hrun, hrun, ih]

/-- What holds from one step to the next holds of a run that has not come to its
end. -/
theorem runSteps_keeps {I : κ → Prop} (hnext : ∀ core, I core → I (next core)) (n : Nat)
    (s : Session κ ω) (hcore : I s.core) (hgoes : (runSteps n s).2 = none) :
    I (runSteps n s).1.core := by
  induction n generalizing s with
  | zero => exact hcore
  | succ n ih =>
    cases s.round with
    | rest hrest hrun => rw [hrun] at hgoes; cases hgoes
    | broken hawake hrun => rw [hrun] at hgoes; cases hgoes
    | finish hawake hrun => rw [hrun] at hgoes; cases hgoes
    | call hawake hrun hstep htrap hsame =>
      rw [hrun] at hgoes ⊢
      exact ih _ (by rw [hsame]; exact hnext _ hcore) hgoes
    | plain hawake hrun hstep htrap hsame =>
      rw [hrun] at hgoes ⊢
      exact ih _ (by rw [hsame]; exact hnext _ hcore) hgoes

/-- The session when its run begins. -/
def started (s : Session κ ω) : Session κ ω :=
  { s with hasRun := true, core := Core.start s.core }

/-- The first run starts the core before it steps. -/
theorem run_of_fresh (hfresh : s.hasRun = false) (limit : Nat) :
    s.run limit = runSteps limit s.started := by
  unfold run
  rw [hfresh]
  rfl

end Session

end Retrocore.Cpm
