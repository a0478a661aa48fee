import Mathlib.Logic.Function.Iterate
import Mathlib.Tactic.IntervalCases
import Retrocore.Proofs.Calls
import Retrocore.Proofs.Frames.Words

/-!
# Waiting for input

The word machines wait for input in their own way: the instruction that finds none runs once
more. It has moved the program counter behind itself by then, and takes it back. So a machine
that waits stays as it was, however long its instruction is and wherever it stands, but for
what its observers note: `asked` is the machine whose observers have been asked so many times
more.

This takes a memory that reads do not change, since the instruction is read anew each time.

What an input does depends on the answer to this one request, on what waits to be read, and on
nothing else (`step_of_starved`, `step_of_given`, `step_of_answered`). So a value that comes late
does what it would have done at once. `waiting_changes_nothing` says so of both machines, and
that an input takes one of the values that wait if no observer supplies one, and none otherwise.
-/

namespace Retrocore

section Asking

variable {δ π ν : Type} [Observer δ π ν]

/-- Observers that have been asked for an input so many times. -/
def Observer.afterAsking (port : π) (n : Nat) (ds : List δ) : List δ :=
  (fun ds => (notifyIn ds port).1)^[n] ds

/-- Observers that have been asked can be asked again. -/
theorem Observer.afterAsking_afterAsking (port : π) (i j : Nat) (ds : List δ) :
    afterAsking port j (afterAsking port i ds) = afterAsking port (i + j) ds := by
  unfold afterAsking
  rw [← Function.iterate_add_apply, Nat.add_comm]

end Asking

/-! ## The Little Man Computer -/

namespace Lmc.Machine

variable {μ δ : Type} [Observer δ Port Word]

/-- The machine whose observers have been asked for a number `n` times more. -/
def asked (m : Machine μ δ) (n : Nat) : Machine μ δ :=
  { m with observers := Observer.afterAsking Port.inp n m.observers }

/-- So an LMC that has waited waits on. -/
theorem asked_asked (m : Machine μ δ) (i j : Nat) : (m.asked i).asked j = m.asked (i + j) := by
  unfold asked
  rw [Observer.afterAsking_afterAsking]

variable [Mapper μ Word] {m : Machine μ δ} (hinp : m.executed? = some .inp)
include hinp

/-- Without any number the machine is as it was, and its observers have been asked. -/
theorem step_of_starved (hquiet : m.memory.Quiet) (hstarved : m.Starved) :
    m.step = ⟨m.asked 1, .ok 1⟩ := by
  obtain ⟨hsilent, hempty⟩ := hstarved
  have hpair : Observer.notifyIn m.observers Port.inp =
      (Observer.afterAsking Port.inp 1 m.observers, .ok none) := Prod.ext rfl hsilent
  rw [step_of_executed? hinp, advance_of_quiet hquiet]
  simp only [execute, hpair, hempty, UInt8.add_sub_cancel]
  rw [← hempty]
  rfl

/-- The number in the in-basket is taken if no observer supplies one. -/
theorem step_of_given (hsilent : (Observer.notifyIn m.observers Port.inp).2 = .ok none)
    {v : Word} (hgiven : m.input = some v) :
    m.step =
      ⟨({ m.advance with input := none }.take (v % modulus)).asked 1, .ok 1⟩ := by
  have hpair : Observer.notifyIn m.advance.observers Port.inp =
      (Observer.afterAsking Port.inp 1 m.observers, .ok none) := Prod.ext rfl hsilent
  have hgiven : m.advance.input = some v := hgiven
  rw [step_of_executed? hinp]
  simp only [execute, hpair, hgiven]
  rfl

/-- A number that an observer supplies comes before the one in the in-basket. -/
theorem step_of_answered {v : Word}
    (hanswer : (Observer.notifyIn m.observers Port.inp).2 = .ok (some v)) :
    m.step = ⟨(m.advance.take (v % modulus)).asked 1, .ok 1⟩ := by
  have hpair : Observer.notifyIn m.advance.observers Port.inp =
      (Observer.afterAsking Port.inp 1 m.observers, .ok (some v)) := Prod.ext rfl hanswer
  rw [step_of_executed? hinp]
  simp only [execute, hpair]
  rfl

/-- As long as there is no number, nothing happens. -/
theorem steps_of_starved (hquiet : m.memory.Quiet) {k : Nat} (hstarved : ∀ i < k, (m.asked i).Starved) :
    ∀ i ≤ k, Core.steps m i = ⟨m.asked i, .ok i⟩ := by
  have hround : ∀ i < k, Core.step (m.asked i) = ⟨m.asked (i + 1), .ok 1⟩ := by
    intro i hi
    have hinp' : (m.asked i).executed? = some .inp := hinp
    rw [← asked_asked]
    exact step_of_starved hinp' hquiet (hstarved i hi)
  intro i hi
  have hsteps : Core.steps m i = ⟨m.asked i, .ok (1 * i)⟩ := Core.steps_course hround i hi
  rwa [Nat.one_mul] at hsteps

/-- A number that comes late does what it would have done at once. -/
theorem step_give_asked {k : Nat}
    (hfirst : (Observer.notifyIn m.observers Port.inp).2 = .ok none)
    (hlater : (Observer.notifyIn (m.asked k).observers Port.inp).2 = .ok none) (v : Word) :
    ((m.asked k).give v).step = (m.give v).step.map (·.asked k) := by
  have hinp' : ((m.asked k).give v).executed? = some .inp := hinp
  have hinp'' : (m.give v).executed? = some .inp := hinp
  -- the request that is answered comes before the others or after them
  have horder : ∀ s : Machine μ δ, (s.asked k).asked 1 = (s.asked 1).asked k := by
    intro s
    rw [asked_asked, asked_asked, Nat.add_comm]
  rw [step_of_given hinp' hlater rfl, step_of_given hinp'' hfirst rfl]
  have htaken := horder ({ m.advance with input := none }.take (v % modulus % modulus))
  exact congrArg (Ran.mk · (.ok 1)) htaken

end Lmc.Machine

/-! ## The Synacor machine -/

namespace Synacor.Machine

variable {μ δ : Type} [Observer δ Byte Byte]

/-- The machine whose observers have been asked for a character `n` times more. -/
def asked (m : Machine μ δ) (n : Nat) : Machine μ δ :=
  { m with observers := Observer.afterAsking consolePort n m.observers }

theorem asked_asked (m : Machine μ δ) (i j : Nat) : (m.asked i).asked j = m.asked (i + j) := by
  unfold asked
  rw [Observer.afterAsking_afterAsking]

omit [Observer δ Byte Byte] in
theorem get_setReg (m : Machine μ δ) (r : Fin 8) (v : Word) : (m.setReg r v).regs.get r = v :=
  Vector.getElem_set_self r.isLt

omit [Observer δ Byte Byte] in
@[simp] theorem input_assign (m : Machine μ δ) (op : Op) (dst : Arg) (v : Word) :
    (m.assign op dst v).state.input = m.input := by
  unfold assign
  split <;> rfl

/-- Where a result goes has nothing to do with the observers. -/
theorem assign_asked (m : Machine μ δ) (n : Nat) (op : Op) (dst : Arg) (v : Word) :
    (m.asked n).assign op dst v = (m.assign op dst v).map (asked · n) := by
  unfold assign
  split <;> rfl

variable [Mapper μ Word] {m : Machine μ δ} {dst : Arg} (hinp : m.executed? = some (.inp dst))
include hinp

/-- Without any character the machine is as it was, and its observers have been asked. -/
theorem step_of_starved (hquiet : m.memory.Quiet) (hstarved : m.Starved) :
    m.step = ⟨m.asked 1, .ok 1⟩ := by
  obtain ⟨hsilent, hempty⟩ := hstarved
  have hpair : Observer.notifyIn m.observers consolePort =
      (Observer.afterAsking consolePort 1 m.observers, .ok none) := Prod.ext rfl hsilent
  rw [step_of_executed? hinp, advance_of_quiet hquiet]
  simp only [execute, readChar, jump, hpair, hempty, UInt16.add_sub_cancel]
  rw [← hempty]
  rfl

/-- The first character that waits is taken if no observer supplies one. -/
theorem step_of_given (hsilent : (Observer.notifyIn m.observers consolePort).2 = .ok none)
    {c : Byte} {rest : List Byte} (hgiven : m.input = c :: rest) :
    m.step =
      ({ m.advance 2 with input := rest }.assign .inp dst c.toUInt16).map (asked · 1) := by
  have hpair : Observer.notifyIn (m.advance 2).observers consolePort =
      (Observer.afterAsking consolePort 1 m.observers, .ok none) := Prod.ext rfl hsilent
  have hgiven : (m.advance 2).input = c :: rest := hgiven
  rw [step_of_executed? hinp, ← assign_asked]
  show (m.advance 2).readChar (.inp dst) dst = _
  simp only [readChar, hpair, hgiven]
  rfl

/-- A character that an observer supplies comes before those that wait. -/
theorem step_of_answered {c : Byte}
    (hanswer : (Observer.notifyIn m.observers consolePort).2 = .ok (some c)) :
    m.step = ((m.advance 2).assign .inp dst c.toUInt16).map (asked · 1) := by
  have hpair : Observer.notifyIn (m.advance 2).observers consolePort =
      (Observer.afterAsking consolePort 1 m.observers, .ok (some c)) := Prod.ext rfl hanswer
  rw [step_of_executed? hinp, ← assign_asked]
  show (m.advance 2).readChar (.inp dst) dst = _
  simp only [readChar, hpair]
  rfl

/-- As long as there is no character, nothing happens. -/
theorem steps_of_starved (hquiet : m.memory.Quiet) {k : Nat} (hstarved : ∀ i < k, (m.asked i).Starved) :
    ∀ i ≤ k, Core.steps m i = ⟨m.asked i, .ok i⟩ := by
  have hround : ∀ i < k, Core.step (m.asked i) = ⟨m.asked (i + 1), .ok 1⟩ := by
    intro i hi
    have hinp' : (m.asked i).executed? = some (.inp dst) := hinp
    rw [← asked_asked]
    exact step_of_starved hinp' hquiet (hstarved i hi)
  intro i hi
  have hsteps : Core.steps m i = ⟨m.asked i, .ok (1 * i)⟩ := Core.steps_course hround i hi
  rwa [Nat.one_mul] at hsteps

/-- A text that comes late does what it would have done at once. -/
theorem step_give_asked (hquiet : m.memory.Quiet) {k : Nat} (hempty : m.input = [])
    (hfirst : (Observer.notifyIn m.observers consolePort).2 = .ok none)
    (hlater : (Observer.notifyIn (m.asked k).observers consolePort).2 = .ok none)
    (text : List Byte) :
    ((m.asked k).give text).step = (m.give text).step.map (asked · k) := by
  have hinp' : ((m.asked k).give text).executed? = some (.inp dst) := hinp
  have hinp'' : (m.give text).executed? = some (.inp dst) := hinp
  have hgiven : (m.give text).input = text := congrArg (· ++ text) hempty
  -- the request that is answered comes before the others or after them
  have horder : ∀ s : Machine μ δ, (s.asked k).asked 1 = (s.asked 1).asked k := by
    intro s
    rw [asked_asked, asked_asked, Nat.add_comm]
  cases text with
  | nil =>
    calc ((m.asked k).give []).step
        = ⟨((m.asked k).give []).asked 1, .ok 1⟩ := step_of_starved hinp' hquiet ⟨hlater, hgiven⟩
      _ = ⟨((m.give []).asked 1).asked k, .ok 1⟩ := congrArg (Ran.mk · (.ok 1)) (horder (m.give []))
      _ = (m.give []).step.map (asked · k) :=
          congrArg (Ran.map (asked · k)) (step_of_starved hinp'' hquiet ⟨hfirst, hgiven⟩).symm
  | cons c rest =>
    let taken : Machine μ δ := { m.advance 2 with input := rest }
    calc ((m.asked k).give (c :: rest)).step
        = ((taken.asked k).assign .inp dst c.toUInt16).map (asked · 1) :=
          step_of_given hinp' hlater hgiven
      _ = ((taken.assign .inp dst c.toUInt16).map (asked · k)).map (asked · 1) := by
          rw [assign_asked]
      _ = ((taken.assign .inp dst c.toUInt16).map (asked · 1)).map (asked · k) :=
          congrArg (Ran.mk · _) (horder _)
      _ = (m.give (c :: rest)).step.map (asked · k) :=
          congrArg (Ran.map (asked · k)) (step_of_given hinp'' hfirst hgiven).symm

end Synacor.Machine

/-! ## Both machines -/

/-- As long as a word machine waits for an input it stays as it was, at a cost of 1 for each step,
and the observers are asked once more each time, unless a mapper makes something of the reads. What
it is given afterwards does what it would have done at once. An input takes exactly one of the
values that wait if no observer supplies one, and none of them otherwise. -/
theorem waiting_changes_nothing :
    (∀ (μ δ : Type) [Mapper μ Word] [Observer δ Lmc.Port Word] (m : Lmc.Machine μ δ),
      m.executed? = some .inp →
      (m.memory.Quiet → ∀ k, (∀ i ≤ k, (m.asked i).Starved) →
        (∀ i ≤ k, Core.steps m i = ⟨m.asked i, .ok i⟩) ∧
        ∀ v, ((Core.steps m k).state.give v).step = (m.give v).step.map (Lmc.Machine.asked · k)) ∧
      (∀ v, (Observer.notifyIn m.observers Lmc.Port.inp).2 = .ok none → m.input = some v →
        m.step.result = .ok 1 ∧ m.step.state.input = none ∧
        m.step.state.acc = v % Lmc.modulus) ∧
      (∀ v, (Observer.notifyIn m.observers Lmc.Port.inp).2 = .ok (some v) →
        m.step.result = .ok 1 ∧ m.step.state.input = m.input ∧
        m.step.state.acc = v % Lmc.modulus)) ∧
    (∀ (μ δ : Type) [Mapper μ Word] [Observer δ Byte Byte] (m : Synacor.Machine μ δ)
        (dst : Synacor.Arg), m.executed? = some (.inp dst) →
      (m.memory.Quiet → ∀ k, (∀ i ≤ k, (m.asked i).Starved) →
        (∀ i ≤ k, Core.steps m i = ⟨m.asked i, .ok i⟩) ∧
        ∀ text, ((Core.steps m k).state.give text).step =
          (m.give text).step.map (Synacor.Machine.asked · k)) ∧
      (∀ c rest, (Observer.notifyIn m.observers Synacor.consolePort).2 = .ok none →
        m.input = c :: rest →
        m.step.state.input = rest ∧
        ∀ r, dst = .reg r → m.step.result = .ok 1 ∧ m.step.state.regs.get r = c.toUInt16) ∧
      (∀ c, (Observer.notifyIn m.observers Synacor.consolePort).2 = .ok (some c) →
        m.step.state.input = m.input ∧
        ∀ r, dst = .reg r → m.step.result = .ok 1 ∧ m.step.state.regs.get r = c.toUInt16)) := by
  constructor
  · intro μ δ _ _ m hinp
    refine ⟨fun hquiet k hstarved => ?_, fun v hsilent hgiven => ?_, fun v hanswer => ?_⟩
    · have hwait := Lmc.Machine.steps_of_starved hinp hquiet fun i hi =>
        hstarved i (Nat.le_of_lt hi)
      refine ⟨hwait, fun v => ?_⟩
      rw [hwait k (Nat.le_refl k)]
      exact Lmc.Machine.step_give_asked hinp (hstarved 0 (Nat.zero_le k)).1
        (hstarved k (Nat.le_refl k)).1 v
    · rw [Lmc.Machine.step_of_given hinp hsilent hgiven]
      exact ⟨rfl, rfl, rfl⟩
    · rw [Lmc.Machine.step_of_answered hinp hanswer]
      exact ⟨rfl, rfl, rfl⟩
  · intro μ δ _ _ m dst hinp
    refine ⟨fun hquiet k hstarved => ?_, fun c rest hsilent hgiven => ?_, fun c hanswer => ?_⟩
    · have hwait := Synacor.Machine.steps_of_starved hinp hquiet fun i hi =>
        hstarved i (Nat.le_of_lt hi)
      refine ⟨hwait, fun text => ?_⟩
      have hfirst := hstarved 0 (Nat.zero_le k)
      rw [hwait k (Nat.le_refl k)]
      exact Synacor.Machine.step_give_asked hinp hquiet hfirst.2 hfirst.1
        (hstarved k (Nat.le_refl k)).1 text
    · rw [Synacor.Machine.step_of_given hinp hsilent hgiven]
      refine ⟨Synacor.Machine.input_assign .., ?_⟩
      rintro r rfl
      exact ⟨rfl, Synacor.Machine.get_setReg ..⟩
    · rw [Synacor.Machine.step_of_answered hinp hanswer]
      refine ⟨Synacor.Machine.input_assign .., ?_⟩
      rintro r rfl
      exact ⟨rfl, Synacor.Machine.get_setReg ..⟩

/-- Both machines wait for three steps at the end of their memories, the Little Man Computer with
an observer that notes the requests, and the Synacor machine at an input that goes around the end
and without any observer. -/
theorem waiting_changes_nothing_at_the_end_of_memory :
    let m : Lmc.Machine Empty (Recorder Lmc.Port Word) :=
      (Lmc.Machine.new (.ofList (.replicate 99 0 ++ [901])) 99).connect {}
    let n : Synacor.Machine Empty (Recorder Byte Byte) := .new (.ofList [32769, 20]) 1
    (m.memory.Quiet ∧ n.memory.Quiet) ∧ (Core.steps m 3 = ⟨m.asked 3, .ok 3⟩ ∧
      ((Core.steps m 3).state.give 1234).step = (m.give 1234).step.map (Lmc.Machine.asked · 3) ∧
      (m.give 1234).step.state.acc = 234) ∧
    (Core.steps n 3 = ⟨n.asked 3, .ok 3⟩ ∧
      ((Core.steps n 3).state.give [65, 66]).step =
        (n.give [65, 66]).step.map (Synacor.Machine.asked · 3) ∧
      (n.give [65, 66]).step.state.input = [66]) := by
  intro m n
  have hinp : m.executed? = some .inp := by decide +kernel
  have hin : n.executed? = some (.inp (.reg 1)) := by decide +kernel
  have hquiet : m.memory.Quiet := Memory.quiet_of_unmapped rfl
  have hquiet' : n.memory.Quiet := Memory.quiet_of_unmapped rfl
  have hstarved : ∀ i ≤ 3, (m.asked i).Starved := by
    intro i hi
    interval_cases i <;> exact ⟨rfl, rfl⟩
  have hempty : ∀ i ≤ 3, (n.asked i).Starved := by
    intro i hi
    interval_cases i <;> exact ⟨rfl, rfl⟩
  obtain ⟨hlmc, hsynacor⟩ := waiting_changes_nothing
  obtain ⟨hwait, hlate⟩ := (hlmc _ _ m hinp).1 hquiet 3 hstarved
  obtain ⟨hwait', hlate'⟩ := (hsynacor _ _ n _ hin).1 hquiet' 3 hempty
  obtain ⟨-, -, hacc⟩ := (hlmc _ _ (m.give 1234) hinp).2.1 234 rfl rfl
  obtain ⟨hrest, -⟩ := (hsynacor _ _ (n.give [65, 66]) _ hin).2.1 65 [66] rfl rfl
  exact ⟨⟨hquiet, hquiet'⟩, ⟨hwait 3 (Nat.le_refl 3), hlate 1234, hacc⟩,
    hwait' 3 (Nat.le_refl 3), hlate' [65, 66], hrest⟩

end Retrocore
