import Retrocore.Proofs.Calls
import Retrocore.I8080.Step
import Retrocore.Z80.Machine

/-!
# Listening in on observers

`Overheard δ` is an observer of type `δ` together with everything it was ever
asked, so that theorems can speak of the requests themselves and not only of
what an observer makes of them. Listening in disturbs nothing: an 8080 whose
observers are overheard runs as it would without (`unheard_after`).
-/

namespace Retrocore

/-- An observer and what it has heard. -/
structure Overheard (δ : Type) where
  observer : δ
  /-- Newest first. -/
  heard : List (Request Byte Byte) := []
  deriving DecidableEq, Repr

namespace Overheard

variable {δ : Type} [Observer δ Byte Byte]

/-- A request goes to the observer within, and is noted whether or not it is
refused. -/
instance : Observer (Overheard δ) Byte Byte where
  onIn d port :=
    let (observer, answer) := Observer.onIn d.observer port
    (⟨observer, .inp port :: d.heard⟩, answer)
  onOut d port v :=
    let (observer, result) := Observer.onOut d.observer port v
    (⟨observer, .out port v :: d.heard⟩, result)

/-- Observers answer an input as they do when nobody takes it down. -/
theorem notifyIn_unheard (ds : List (Overheard δ)) (port : Byte) :
    (Observer.notifyIn ds port).1.map observer =
    (Observer.notifyIn (ds.map observer) port).1 ∧
    (Observer.notifyIn ds port).2 =
    (Observer.notifyIn (ds.map observer) port).2 := by
  induction ds with
  | nil => exact ⟨rfl, rfl⟩
  | cons d ds ih =>
    obtain ⟨hrest, hanswer⟩ := ih
    rcases hd : Observer.onIn d.observer port with ⟨d', fault | answer⟩
    · have hover :
          Observer.onIn d port = (⟨d', .inp port :: d.heard⟩, .error fault) := by
        simp only [Observer.onIn, hd]
      simp only [List.map_cons, Observer.notifyIn, hd, hover, and_self]
    · have hover :
          Observer.onIn d port = (⟨d', .inp port :: d.heard⟩, .ok answer) := by
        simp only [Observer.onIn, hd]
      simp only [List.map_cons, Observer.notifyIn, hd, hover, hrest, hanswer,
        and_self]

theorem notifyOut_unheard (ds : List (Overheard δ)) (port v : Byte) :
    (Observer.notifyOut ds port v).1.map observer =
      (Observer.notifyOut (ds.map observer) port v).1 ∧
    (Observer.notifyOut ds port v).2 =
    (Observer.notifyOut (ds.map observer) port v).2 := by
  induction ds with
  | nil => exact ⟨rfl, rfl⟩
  | cons d ds ih =>
    obtain ⟨hrest, hresult⟩ := ih
    rcases hd : Observer.onOut d.observer port v with ⟨d', fault | ⟨⟩⟩
    · have hover : Observer.onOut d port v =
          (⟨d', .out port v :: d.heard⟩, .error fault) := by
        simp only [Observer.onOut, hd]
      simp only [List.map_cons, Observer.notifyOut, hd, hover, and_self]
    · have hover :
          Observer.onOut d port v = (⟨d', .out port v :: d.heard⟩, .ok ()) := by
        simp only [Observer.onOut, hd]
      simp only [List.map_cons, Observer.notifyOut, hd, hover, hrest, hresult,
        and_self]

end Overheard

/-! ## Ports -/

namespace Ports

variable {δ : Type}

/-- The same ports, with every observer overheard from now on. -/
def overheard (p : Ports δ) : Ports (Overheard δ) :=
  { p with observers := p.observers.map fun observer => { observer } }

/-- The same ports, nobody listening in. -/
def unheard (p : Ports (Overheard δ)) : Ports δ :=
  { p with observers := p.observers.map Overheard.observer }

/-- What each observer has heard. -/
def heard (p : Ports (Overheard δ)) : List (List (Request Byte Byte)) :=
  p.observers.map Overheard.heard

/-- Taking requests down is begun with an empty record and can be left off again. -/
theorem unheard_overheard (p : Ports δ) : p.overheard.unheard = p := by
  simp [overheard, unheard, Function.comp_def]

variable [Observer δ Byte Byte]

/-- An input supplies the same value or fails in the same way. -/
theorem unheard_read (p : Ports (Overheard δ)) (port : Byte) :
    (p.read port).1.unheard = (p.unheard.read port).1 ∧
    (p.read port).2 = (p.unheard.read port).2 := by
  obtain ⟨hobservers, hanswer⟩ := Overheard.notifyIn_unheard p.observers port
  simp only [read, unheard, hobservers, hanswer, true_and]
  rfl

/-- An output is latched or fails in the same way. -/
theorem unheard_write (p : Ports (Overheard δ)) (port v : Byte) :
    (p.write port v).1.unheard = (p.unheard.write port v).1 ∧
    (p.write port v).2 = (p.unheard.write port v).2 := by
  obtain ⟨hobservers, hresult⟩ := Overheard.notifyOut_unheard p.observers port v
  simp only [write, unheard, hobservers, hresult, and_self]

end Ports

/-- The same Z80, its observers overheard from now on. -/
def Z80.Machine.overheard {μ δ : Type} (z : Z80.Machine μ δ) :
    Z80.Machine μ (Overheard δ) :=
  { z with ports := z.ports.overheard }

/-! ## The 8080 overheard -/

namespace I8080.Machine

variable {μ δ : Type}

def overheard (m : Machine μ δ) : Machine μ (Overheard δ) :=
  { m with ports := m.ports.overheard }

def unheard (m : Machine μ (Overheard δ)) : Machine μ δ :=
  { m with ports := m.ports.unheard }

variable (m : Machine μ (Overheard δ))

/-- So it is with a machine and its ports. -/
theorem unheard_overheard (m : Machine μ δ) : m.overheard.unheard = m := by
  unfold overheard unheard
  rw [Ports.unheard_overheard]

theorem unheard_flags : m.unheard.flags = m.flags := rfl

variable [Mapper μ Byte]

/-- The record is no part of what is loaded. -/
theorem unheard_load (r : Reg) : m.unheard.load r = ((m.load r).1, (m.load r).2.unheard) := by
  cases r <;> rfl

theorem unheard_setReg (r : Reg) (v : Byte) :
    (m.setReg r v).unheard = m.unheard.setReg r v := by
  cases r <;> rfl

variable [Observer δ Byte Byte]

/-- OUT does the same with or without a record. -/
theorem unheard_out (port : Byte) :
    (m.execute (.out port)).map unheard = m.unheard.execute (.out port) := by
  obtain ⟨hports, hresult⟩ := m.ports.unheard_write port m.regs.a
  have hwrite : m.unheard.ports.write port m.unheard.regs.a =
      ((m.ports.write port m.regs.a).1.unheard, (m.ports.write port m.regs.a).2) :=
    Prod.ext hports.symm hresult.symm
  simp only [execute, hwrite]
  rfl

/-- IN does the same with or without a record. -/
theorem unheard_inp (port : Byte) :
    (m.execute (.inp port)).map unheard = m.unheard.execute (.inp port) := by
  obtain ⟨hports, hanswer⟩ := m.ports.unheard_read port
  have hread : m.unheard.ports.read port =
      ((m.ports.read port).1.unheard, (m.ports.read port).2) :=
    Prod.ext hports.symm hanswer.symm
  simp only [execute, hread]
  rcases m.ports.read port with ⟨ports, fault | v⟩ <;> rfl

/-- An instruction does the same whether or not somebody listens in. -/
theorem unheard_execute (i : Instruction) :
    (m.execute i).map unheard = m.unheard.execute i := by
  cases i with
  -- only outputs and inputs reach the observers; the rest computes the same
  -- state, with the ports handed through
  | out port => exact m.unheard_out port
  | inp port => exact m.unheard_inp port
  | lxi p v => cases p <;> rfl
  | stax p => cases p <;> rfl
  | ldax p => cases p <;> rfl
  | inx p => cases p <;> rfl
  | dcx p => cases p <;> rfl
  | inr r => cases r <;> rfl
  | dcr r => cases r <;> rfl
  | mvi r v => cases r <;> rfl
  | dad p => cases p <;> rfl
  | mov dst src =>
    simp only [execute, Ran.map, unheard_setReg, unheard_load]
  | alu op r =>
    simp only [execute, Ran.map, unheard_load]
    rfl
  | pop p => cases p <;> rfl
  | push p => cases p <;> rfl
  | ret when? =>
    cases when? with
    | none => rfl
    | some cc =>
      cases hcc : m.flags.satisfy cc <;>
        simp only [execute, unheard_flags, hcc] <;>
        rfl
  | jmp when? address =>
    cases when? with
    | none => rfl
    | some cc =>
      cases hcc : m.flags.satisfy cc <;>
        simp only [execute, unheard_flags, hcc] <;>
        rfl
  | call when? address =>
    cases when? with
    | none => rfl
    | some cc =>
      cases hcc : m.flags.satisfy cc <;>
        simp only [execute, unheard_flags, hcc] <;>
        rfl
  | _ => rfl

/-- A step does the same with or without a record. -/
theorem unheard_step : m.step.map unheard = m.unheard.step := by
  have haction : m.unheard.action = m.action := rfl
  unfold step
  rw [haction]
  cases m.action with
  | service opcode => exact unheard_execute _ _
  | idle => rfl
  | run => exact unheard_execute _ _

theorem unheard_call (c : Call) :
    (Core.call m c).unheard = Core.call m.unheard c := by
  cases c with
  | step => exact congrArg Ran.state m.unheard_step
  | interrupt byte => rfl

/-- A whole run does the same. -/
theorem unheard_after (calls : List Call) :
    (Core.after m calls).unheard = Core.after m.unheard calls := by
  induction calls generalizing m with
  | nil => rfl
  | cons c cs ih =>
    rw [Core.after_cons, Core.after_cons, ih, unheard_call]

/-- The states that a run steps from are those it steps from with somebody
listening in. -/
theorem stepsWithin_unheard {P : Machine μ δ → Prop} (calls : List Call)
    (h : Core.StepsWithin P m.unheard calls) :
    Core.StepsWithin (fun m => P m.unheard) m calls := by
  induction calls generalizing m with
  | nil => trivial
  | cons c cs ih =>
    obtain ⟨hfirst, hrest⟩ := h
    rw [← unheard_call] at hrest
    exact ⟨hfirst, ih _ hrest⟩

end I8080.Machine

end Retrocore
