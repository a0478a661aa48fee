import Retrocore.Proofs.Cpm.Rounds
import Retrocore.Proofs.Frames.Requests

/-!
# Traps are served

What a CP/M program asks for passes through a latch: an observer notes in the
middle of an instruction which trap is sprung, and the session looks at it when
the step is over. `traps_served` says that nothing is lost on the way, or served
twice. What a session prints is what the calls print that its steps make, call
after call, each as registers and memory stand right after the step; a value put
out to the first trap's port ends the run with that step; and so does every other
request, which the step fails at.

A step makes at most one request (`Proofs/Frames/Requests`), so that at most one
trap can be sprung in it, and the session sets both traps again before the next
step. `Attended` gathers what follows from this for a host, and `account_runSteps`
goes on from there by induction on the rounds.
-/

namespace Retrocore.Cpm

/-! ## Traps at ports -/

/-- The trap that a request springs. -/
def Trap.of? : Request Byte Byte → Option Trap
  | .inp _ => none
  | .out port _ => Trap.ofPort? port

/-- The traps are told apart by their ports. -/
theorem Trap.ofPort?_eq_some_iff {port : Byte} {trap : Trap} :
    Trap.ofPort? port = some trap ↔ port = trap.port := by
  constructor
  · intro h
    have hfound : [Trap.finish, .call].find? (·.port == port) = some trap := h
    have hport := List.find?_some hfound
    exact (eq_of_beq hport).symm
  · rintro rfl
    cases trap <;> rfl

/-- What springs no trap is refused. -/
def refusalOf? : Request Byte Byte → Option Fault
  | .inp port => some (.illegalPort port.toUInt16)
  | .out port _ => if (Trap.ofPort? port).isSome then none else some (.illegalPort port.toUInt16)

/-- An output to any other port is an illegal one. -/
theorem refusalOf?_of_ne {port v : Byte} (hfinish : port ≠ Trap.finish.port)
    (hcall : port ≠ Trap.call.port) :
    refusalOf? (.out port v) = some (.illegalPort port.toUInt16) := by
  cases htrap : Trap.ofPort? port with
  | none =>
    simp only [refusalOf?, htrap]
    rfl
  | some trap =>
    have hport := Trap.ofPort?_eq_some_iff.mp htrap
    cases trap with
    | finish => exact absurd hport hfinish
    | call => exact absurd hport hcall

/-- The traps are set: there is one observer, and no trap is sprung. -/
def Traps.Armed (p : Ports Traps) : Prop := p.observers = [{}]

/-- What the observer makes of a value put out. -/
theorem notifyOut_armed (port v : Byte) :
    Observer.notifyOut [({} : Traps)] port v =
      ([{ sprung := Trap.ofPort? port }],
        if (Trap.ofPort? port).isSome then .ok () else .error (.illegalPort port.toUInt16)) := by
  simp only [Observer.notifyOut, Observer.onOut]
  cases Trap.ofPort? port <;> rfl

/-- Taking the trap sets both of them again. -/
theorem take_after {p : Ports Traps} (harmed : Traps.Armed p) (request? : Option (Request Byte Byte)) :
    (Traps.take (p.after request?)).1 = request?.bind Trap.of? ∧
      Traps.Armed (Traps.take (p.after request?)).2 := by
  obtain ⟨inputs, outputs, observers⟩ := p
  obtain rfl : observers = [{}] := harmed
  cases request? with
  | none => exact ⟨rfl, rfl⟩
  | some request =>
    cases request with
    | inp port => exact ⟨rfl, rfl⟩
    | out port v =>
      simp only [Ports.after, Ports.told, notifyOut_armed, Option.bind_some, Trap.of?]
      cases Trap.ofPort? port <;> exact ⟨rfl, rfl⟩

/-- An armed session refuses by its traps alone, whatever has been trapped so far. -/
theorem refusal?_eq {p : Ports Traps} (harmed : Traps.Armed p) (request : Request Byte Byte) :
    p.refusal? request = refusalOf? request := by
  unfold Ports.refusal?
  rw [harmed]
  cases request with
  | inp port => rfl
  | out port v =>
    simp only [notifyOut_armed, refusalOf?]
    cases Trap.ofPort? port <;> rfl

/-! ## Hosts with traps -/

/-- A host of which it is known what its next step requests of the ports. The
trap that the request springs is found after the step, and no other. -/
class Attended (κ : Type) [Core κ] [Host κ] where
  request? : κ → Option (Request Byte Byte)
  /-- Both traps are set. -/
  Armed : κ → Prop
  armed_start : ∀ {k : κ}, Armed k → Armed (Core.start k)
  armed_next : ∀ {k : κ}, Armed k → Armed (next k)
  sprungBy_eq : ∀ {k : κ}, Armed k → sprungBy k = (request? k).bind Trap.of?
  fault?_step : ∀ {k : κ} {request : Request Byte Byte}, Armed k → request? k = some request →
    (Core.step k).fault? = refusalOf? request
  /-- Taking a trap touches nothing that a call is answered from. -/
  answer_next : ∀ k : κ, answer (next k) = answer (Core.step k).state

instance {μ : Type} [Mapper μ Byte] : Attended (I8080.Machine μ Traps) where
  request? m := m.request?
  Armed m := Traps.Armed m.ports
  armed_start harmed := harmed
  armed_next {m} harmed := by
    show Traps.Armed (Traps.take m.step.state.outside.ports).2
    rw [m.reaches_step.ports]
    exact (take_after harmed _).2
  sprungBy_eq {m} harmed := by
    show (Traps.take m.step.state.outside.ports).1 = m.request?.bind Trap.of?
    rw [m.reaches_step.ports]
    exact (take_after harmed _).1
  fault?_step harmed hrequest :=
    (I8080.Machine.fault?_step hrequest).trans (refusal?_eq harmed _)
  answer_next _ := rfl

instance {μ : Type} [Mapper μ Byte] : Attended (Z80.Machine μ Traps) where
  request? m := m.request?
  Armed m := Traps.Armed m.ports
  armed_start harmed := harmed
  armed_next {m} harmed := by
    show Traps.Armed (Traps.take m.step.state.outside.ports).2
    rw [m.reaches_step.ports]
    exact (take_after harmed _).2
  sprungBy_eq {m} harmed := by
    show (Traps.take m.step.state.outside.ports).1 = m.request?.bind Trap.of?
    rw [m.reaches_step.ports]
    exact (take_after harmed _).1
  fault?_step harmed hrequest :=
    (Z80.Machine.fault?_step hrequest).trans (refusal?_eq harmed _)
  answer_next _ := rfl

/-! ## Accounts of runs -/

open Attended (request?)

section

variable {κ ω : Type} [Core κ] [Host κ] [Attended κ]

/-- What the step from a core makes the session print: if it puts something out
to the port of the second trap, the answer to a call as the step has left
registers and memory. -/
def served (core : κ) : List Byte :=
  match request? core with
  | some (.out port _) =>
    if port = Trap.call.port then (answer (Core.step core).state).getD [] else []
  | _ => []

/-- How a run comes to its end, or is broken off, after a number of steps: which
core it leaves, whether the program has finished, and the result. -/
inductive Ending (core : κ) (limit : Nat) : Nat → κ → Bool → Option (Except Fault Unit) → Prop
  /-- It may take no more steps. -/
  | cut : Ending core limit limit (course core limit) false none
  /-- The core makes no step any more. -/
  | rest {i : Nat} (hrest : AtRest (course core i)) :
    Ending core limit i (Core.stop (course core i)) false (some (.ok ()))
  /-- The program has finished. -/
  | finish {i : Nat} {v : Byte}
    (hrequest : request? (course core i) = some (.out Trap.finish.port v)) :
    Ending core limit (i + 1) (Core.stop (course core (i + 1))) true (some (.ok ()))
  /-- A step has failed. -/
  | broken {i : Nat} {k : κ} {fault : Fault}
    (hstep : Core.step (course core i) = ⟨k, .error fault⟩) :
    Ending core limit (i + 1) k false (some (.error fault))

/-- An account of a run of at most `limit` steps from a core and a console. It
has made `steps` steps. -/
structure Account (core : κ) (console : Console) (limit : Nat)
    (outcome : Session κ ω × Option (Except Fault Unit)) (steps : Nat) : Prop where
  within : steps ≤ limit
  /-- What is printed is what the calls print, one after the other. -/
  printed : outcome.1.console =
    ((List.range steps).flatMap fun i => served (course core i)).foldl Console.print console
  /-- The first value put out to the first trap's port ends the run in that
  step. -/
  finishes : ∀ i < steps, ∀ v, request? (course core i) = some (.out Trap.finish.port v) →
    steps = i + 1 ∧ outcome.1.finished = true ∧ outcome.2 = some (.ok ())
  /-- The first input does so too, and is refused. -/
  refusesIn : ∀ i < steps, ∀ port, request? (course core i) = some (.inp port) →
    steps = i + 1 ∧ outcome.1.finished = false ∧
      outcome.2 = some (.error (.illegalPort port.toUInt16))
  /-- So does the first value put out to a port of no trap. -/
  refusesOut : ∀ i < steps, ∀ port v, request? (course core i) = some (.out port v) →
    port ≠ Trap.finish.port → port ≠ Trap.call.port →
      steps = i + 1 ∧ outcome.1.finished = false ∧
        outcome.2 = some (.error (.illegalPort port.toUInt16))
  /-- No step is made with a core at rest. -/
  awake : ∀ i < steps, ¬ AtRest (course core i)
  ending : Ending core limit steps outcome.1.core outcome.1.finished outcome.2

variable {core : κ} {console : Console} {limit steps : Nat}
  {outcome : Session κ ω × Option (Except Fault Unit)}

/-! ### One step -/

/-- A trap is sprung by a value put out to its port. -/
theorem request_of_trap (harmed : Attended.Armed core) {trap : Trap}
    (htrap : sprungBy core = some trap) : ∃ v, request? core = some (.out trap.port v) := by
  rw [Attended.sprungBy_eq harmed] at htrap
  obtain ⟨request, hrequest, hsprung⟩ := Option.bind_eq_some_iff.mp htrap
  cases request with
  | inp port => cases hsprung
  | out port v =>
    obtain rfl := Trap.ofPort?_eq_some_iff.mp hsprung
    exact ⟨v, hrequest⟩

/-- A step that springs no trap and goes well requests nothing. -/
theorem request_of_plain (harmed : Attended.Armed core) (htrap : sprungBy core = none)
    (hfault : (Core.step core).fault? = none) : request? core = none := by
  rw [Attended.sprungBy_eq harmed] at htrap
  cases hrequest : request? core with
  | none => rfl
  | some request =>
    rw [hrequest] at htrap
    rw [Attended.fault?_step harmed hrequest] at hfault
    cases request with
    | inp port => cases hfault
    | out port v =>
      have hunsprung : Trap.ofPort? port = none := htrap
      simp [refusalOf?, hunsprung] at hfault

/-- A step that fails at a request springs no trap. -/
theorem refused_of_broken (harmed : Attended.Armed core) {request : Request Byte Byte}
    (hrequest : request? core = some request) {k : κ} {fault : Fault}
    (hstep : Core.step core = ⟨k, .error fault⟩) : refusalOf? request = some fault := by
  rw [← Attended.fault?_step harmed hrequest, hstep]
  rfl

/-- A step that calls the system is served once, from the state after it. -/
theorem served_of_call {v : Byte} (h : request? core = some (.out Trap.call.port v)) :
    served core = (answer (next core)).getD [] := by
  unfold served
  rw [h, Attended.answer_next]
  exact if_pos rfl

theorem served_of_no_call (h : ∀ v, request? core ≠ some (.out Trap.call.port v)) :
    served core = [] := by
  unfold served
  cases hrequest : request? core with
  | none => rfl
  | some request =>
    cases request with
    | inp port => rfl
    | out port v =>
      refine if_neg fun hport => h v ?_
      rw [hrequest, hport]

/-! ### Runs -/

/-- No step has been made. -/
theorem Account.zero (hconsole : outcome.1.console = console)
    (hending : Ending core limit 0 outcome.1.core outcome.1.finished outcome.2) :
    Account core console limit outcome 0 where
  within := Nat.zero_le limit
  printed := hconsole
  finishes _ hi := absurd hi (Nat.not_lt_zero _)
  refusesIn _ hi := absurd hi (Nat.not_lt_zero _)
  refusesOut _ hi := absurd hi (Nat.not_lt_zero _)
  awake _ hi := absurd hi (Nat.not_lt_zero _)
  ending := hending

/-- The only step has finished the program. -/
theorem Account.finish {v : Byte} (hawake : ¬ AtRest core)
    (hrequest : request? core = some (.out Trap.finish.port v))
    (hcore : outcome.1.core = Core.stop (next core)) (hconsole : outcome.1.console = console)
    (hfinished : outcome.1.finished = true) (hresult : outcome.2 = some (.ok ())) :
    Account core console (limit + 1) outcome 1 where
  within := Nat.le_add_left 1 limit
  printed := by
    have hserved : served core = [] := by
      refine served_of_no_call fun v' hcall => ?_
      rw [hrequest] at hcall
      cases hcall
    rw [hconsole]
    show console = (served core ++ []).foldl Console.print console
    rw [hserved]
    rfl
  finishes i hi v' _ := ⟨by omega, hfinished, hresult⟩
  refusesIn i hi port hin := by
    obtain rfl : i = 0 := by omega
    rw [course, hrequest] at hin
    cases hin
  refusesOut i hi port v' hout hne := by
    obtain rfl : i = 0 := by omega
    rw [course, hrequest] at hout
    cases hout
    exact absurd rfl hne
  awake i hi := by
    obtain rfl : i = 0 := by omega
    exact hawake
  ending := by
    rw [hcore, hfinished, hresult]
    exact .finish (i := 0) hrequest

/-- The only step has failed. -/
theorem Account.broken (harmed : Attended.Armed core) {fault : Fault} (hawake : ¬ AtRest core)
    (hstep : Core.step core = ⟨outcome.1.core, .error fault⟩)
    (hresult : outcome.2 = some (.error fault)) (hconsole : outcome.1.console = console)
    (hfinished : outcome.1.finished = false) : Account core console (limit + 1) outcome 1 where
  within := Nat.le_add_left 1 limit
  printed := by
    have hserved : served core = [] := by
      refine served_of_no_call fun v hcall => ?_
      cases refused_of_broken harmed hcall hstep
    rw [hconsole]
    show console = (served core ++ []).foldl Console.print console
    rw [hserved]
    rfl
  finishes i hi v hfinish := by
    obtain rfl : i = 0 := by omega
    cases refused_of_broken harmed hfinish hstep
  refusesIn i hi port hin := by
    obtain rfl : i = 0 := by omega
    cases refused_of_broken harmed hin hstep
    exact ⟨rfl, hfinished, hresult⟩
  refusesOut i hi port v hout hfinish hcall := by
    obtain rfl : i = 0 := by omega
    have hrefused := refused_of_broken harmed hout hstep
    rw [refusalOf?_of_ne hfinish hcall] at hrefused
    cases hrefused
    exact ⟨rfl, hfinished, hresult⟩
  awake i hi := by
    obtain rfl : i = 0 := by omega
    exact hawake
  ending := by
    rw [hfinished, hresult]
    exact .broken (i := 0) hstep

/-- What a step is that the run goes on after. -/
def GoesOn (core : κ) : Prop :=
  request? core = none ∨ ∃ v, request? core = some (.out Trap.call.port v)

/-- A session that goes on after a request has had a call to serve. -/
theorem GoesOn.eq_call (hgoes : GoesOn core) {request : Request Byte Byte}
    (hrequest : request? core = some request) : ∃ v, request = .out Trap.call.port v := by
  obtain hnone | ⟨v, hcall⟩ := hgoes
  · rw [hnone] at hrequest
    cases hrequest
  · rw [hcall] at hrequest
    cases hrequest
    exact ⟨v, rfl⟩

/-- The ending of the rest of a run is the ending of the run. -/
theorem Ending.step {k : κ} {finished : Bool} {result : Option (Except Fault Unit)}
    (h : Ending (next core) limit steps k finished result) :
    Ending core (limit + 1) (steps + 1) k finished result := by
  cases h with
  | cut => exact .cut
  | rest hrest => exact .rest (i := steps + 1) hrest
  | @finish i v hrequest => exact .finish (i := i + 1) hrequest
  | @broken i k fault hstep => exact .broken (i := i + 1) hstep

/-- One more step before the others. -/
theorem Account.step (hawake : ¬ AtRest core) (hgoes : GoesOn core)
    (h : Account (next core) ((served core).foldl Console.print console) limit outcome steps) :
    Account core console (limit + 1) outcome (steps + 1) where
  within := Nat.succ_le_succ h.within
  printed := by
    rw [h.printed, List.range_succ_eq_map, List.flatMap_cons, List.flatMap_map, List.foldl_append]
    rfl
  finishes i hi v hfinish := by
    cases i with
    | zero =>
      obtain ⟨_, hcall⟩ := hgoes.eq_call hfinish
      cases hcall
    | succ i =>
      obtain ⟨hsteps, hrest⟩ := h.finishes i (by omega) v hfinish
      exact ⟨by omega, hrest⟩
  refusesIn i hi port hin := by
    cases i with
    | zero =>
      obtain ⟨_, hcall⟩ := hgoes.eq_call hin
      cases hcall
    | succ i =>
      obtain ⟨hsteps, hrest⟩ := h.refusesIn i (by omega) port hin
      exact ⟨by omega, hrest⟩
  refusesOut i hi port v hout hfinish hne := by
    cases i with
    | zero =>
      obtain ⟨_, hcall⟩ := hgoes.eq_call hout
      cases hcall
      exact absurd rfl hne
    | succ i =>
      obtain ⟨hsteps, hrest⟩ := h.refusesOut i (by omega) port v hout hfinish hne
      exact ⟨by omega, hrest⟩
  awake i hi := by
    cases i with
    | zero => exact hawake
    | succ i => exact h.awake i (by omega)
  ending := h.ending.step

variable [Monitor ω κ Happening]

/-- There is an account of every run, by induction on the rounds that it may
take. -/
theorem account_runSteps (limit : Nat) (s : Session κ ω) (harmed : Attended.Armed s.core)
    (hfinished : s.finished = false) :
    ∃ steps, Account s.core s.console limit (s.runSteps limit) steps := by
  induction limit generalizing s with
  | zero => exact ⟨0, .zero rfl (by rw [Session.runSteps, hfinished]; exact .cut)⟩
  | succ limit ih =>
    cases s.round with
    | rest hrest hrun hcore hconsole hsame =>
      rw [hrun]
      refine ⟨0, .zero hconsole ?_⟩
      rw [hcore, hsame, hfinished]
      exact .rest (i := 0) hrest
    | broken hawake hrun hstep hconsole hsame =>
      rw [hrun]
      exact ⟨1, .broken harmed hawake hstep rfl hconsole (hsame.trans hfinished)⟩
    | finish hawake hrun hstep htrap hcore hconsole hdone =>
      rw [hrun]
      obtain ⟨v, hrequest⟩ := request_of_trap harmed htrap
      exact ⟨1, .finish hawake hrequest hcore hconsole hdone rfl⟩
    | call hawake hrun hstep htrap hcore hconsole hsame =>
      obtain ⟨v, hrequest⟩ := request_of_trap harmed htrap
      obtain ⟨steps, h⟩ := ih _ (by rw [hcore]; exact Attended.armed_next harmed)
        (hsame.trans hfinished)
      rw [hcore, hconsole, Session.shows, ← served_of_call hrequest] at h
      rw [hrun]
      exact ⟨steps + 1, .step hawake (.inr ⟨v, hrequest⟩) h⟩
    | plain hawake hrun hstep htrap hcore hconsole hsame =>
      have hrequest : request? s.core = none :=
        request_of_plain harmed htrap (by unfold Ran.fault?; rw [hstep])
      have hserved : served s.core = [] := served_of_no_call fun v => by simp [hrequest]
      obtain ⟨steps, h⟩ := ih _ (by rw [hcore]; exact Attended.armed_next harmed)
        (hsame.trans hfinished)
      rw [hcore, hconsole] at h
      rw [hrun]
      refine ⟨steps + 1, .step hawake (.inl hrequest) ?_⟩
      rw [hserved]
      exact h

/-- There is an account of what a session does that is started. -/
def Session.Accounted (s : Session κ ω) (limit : Nat) : Prop :=
  ∃ steps, Account (Core.start s.core) s.console limit (s.run limit) steps

/-- Every run of a new session is accounted for. -/
theorem Session.Accounted.fresh {s : Session κ ω} (harmed : Attended.Armed s.core)
    (hrun : s.hasRun = false) (hfinished : s.finished = false) (limit : Nat) :
    s.Accounted limit := by
  unfold Session.Accounted
  rw [Session.run_of_fresh hrun]
  exact account_runSteps limit s.started (Attended.armed_start harmed) hfinished

end

/-- **Traps are served once and in order**, whatever the program. Every run of a
session has its account, however many steps it may take. -/
theorem traps_served {μ ω ω' : Type} [Mapper μ Byte]
    [Monitor ω (I8080.Machine μ Traps) Happening] [Monitor ω' (Z80.Machine μ Traps) Happening]
    (program : List Byte) (mapper : Option μ) (monitor : ω) (monitor' : ω') (limit : Nat) :
    (Session.i8080 program mapper monitor).Accounted limit ∧
      (Session.z80 program mapper monitor').Accounted limit :=
  ⟨.fresh rfl rfl rfl limit, .fresh rfl rfl rfl limit⟩

end Retrocore.Cpm
