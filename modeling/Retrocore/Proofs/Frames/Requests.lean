import Retrocore.Proofs.Faults.I8080
import Retrocore.Proofs.Faults.Z80

/-!
# What a step does outside of the processor

A step of an 8080 or a Z80 may read from and write to memory, and it may request
one input or put one value out. `request?` is that request, read off the
instruction and the state in which it begins, and `reaches_step` says that the step
does nothing else outside: memory comes by reads and writes from what it was, and
the ports are as that one request leaves them. A block instruction makes one round
a step, and so one request too.

A step that makes a request fails where the request is refused, and in no other
way (`fault?_step`).

Requests that follow one another take the ports along a `course`; as long as none
is refused, every observer hears each of them (`Ports.observers_course`).
-/

namespace Retrocore

/-- A step has ended in a fault. -/
theorem Ran.fault?_eq_some_iff {σ : Type} {r : Ran σ} {fault : Fault} :
    r.fault? = some fault ↔ ∃ s, r = ⟨s, .error fault⟩ := by
  obtain ⟨s, result⟩ := r
  cases result with
  | ok n => simp [fault?]
  | error fault' => simp [fault?]

/-- Whatever is made of a cost, nothing is made of a fault. -/
theorem Ran.fault?_map_result {σ : Type} (r : Ran σ) (f : Nat → Nat) :
    (⟨r.state, r.result.map f⟩ : Ran σ).fault? = r.fault? := by
  obtain ⟨s, result⟩ := r
  cases result <;> rfl

/-! ## Memory and ports -/

namespace Memory

variable {μ κ : Type} [Inhabited κ] [Mapper μ κ] {m m' m'' : Memory μ κ}

/-- One memory comes from another by reads and writes over the bus. -/
inductive Used (m : Memory μ κ) : Memory μ κ → Prop
  | refl : Used m m
  | read {m' : Memory μ κ} (h : Used m m') (a : Word) : Used m (m'.afterRead a)
  | write {m' : Memory μ κ} (h : Used m m') (a : Word) (v : κ) : Used m (m'.write a v)

/-- What every read and every write keeps is kept. -/
theorem Used.keeps {P : Memory μ κ → Prop} (hread : ∀ m a, P m → P (m.afterRead a))
    (hwrite : ∀ m a v, P m → P (m.write a v)) (h : m.Used m') (hm : P m) : P m' := by
  induction h with
  | refl => exact hm
  | read _ a ih => exact hread _ a ih
  | write _ a v ih => exact hwrite _ a v ih

theorem Used.trans (h : m.Used m') (h' : m'.Used m'') : m.Used m'' :=
  h'.keeps (P := m.Used) (fun _ a ih => ih.read a) (fun _ a v ih => ih.write a v) h

/-- A memory that is only looked at is used, too. -/
theorem Looked.used (h : m.Looked m') : m.Used m' :=
  h.keeps (P := m.Used) (fun _ a ih => ih.read a) .refl

end Memory

namespace Observer

variable {δ π ν : Type} [Observer δ π ν]

/-- The observer once it has heard a request. -/
def hears (d : δ) : Request π ν → δ
  | .inp port => (onIn d port).1
  | .out port v => (onOut d port v).1

/-- If none of them fails, all observers have been asked, the one that answers
included. -/
theorem notifyIn_of_ok {ds : List δ} {port : π} {answer : Option ν}
    (h : (notifyIn ds port).2 = .ok answer) :
    (notifyIn ds port).1 = ds.map (hears · (.inp port)) := by
  induction ds generalizing answer with
  | nil => rfl
  | cons d ds ih =>
    rcases hd : onIn d port with ⟨d', fault | first⟩
    · simp only [notifyIn, hd] at h
      cases h
    · rcases hrest : (notifyIn ds port).2 with fault | later
      · simp only [notifyIn, hd, hrest] at h
        cases h
      · simp only [notifyIn, hd, ih hrest, List.map_cons, hears]

/-- If none of them fails, all observers have been told. -/
theorem notifyOut_of_ok {ds : List δ} {port : π} {v : ν}
    (h : (notifyOut ds port v).2 = .ok ()) :
    (notifyOut ds port v).1 = ds.map (hears · (.out port v)) := by
  induction ds with
  | nil => rfl
  | cons d ds ih =>
    rcases hd : onOut d port v with ⟨d', fault | _⟩
    · simp only [notifyOut, hd] at h
      cases h
    · simp only [notifyOut, hd] at h
      simp only [notifyOut, hd, ih h, List.map_cons, hears]

end Observer

namespace Ports

variable {δ : Type} [Observer δ Byte Byte]

/-- What an input from the port reads, zero if it is refused. -/
def supplied (p : Ports δ) (port : Byte) : Byte :=
  match (p.read port).2 with
  | .ok v => v
  | .error _ => 0

/-- The ports after a request, if there is one. -/
def after (p : Ports δ) : Option (Request Byte Byte) → Ports δ
  | none => p
  | some (.inp port) => p.asked port
  | some (.out port v) => p.told port v

/-- How a request is refused, if it is. -/
def refusal? (p : Ports δ) : Request Byte Byte → Option Fault
  | .inp port =>
    match (Observer.notifyIn p.observers port).2 with
    | .error fault => some fault
    | .ok _ => none
  | .out port v =>
    match (Observer.notifyOut p.observers port v).2 with
    | .error fault => some fault
    | .ok () => none

/-- An input is refused by the first observer that fails. -/
theorem refusal?_inp_iff {p : Ports δ} {port : Byte} {fault : Fault} :
    p.refusal? (.inp port) = some fault ↔ p.RefusesIn port fault := by
  unfold RefusesIn
  simp only [refusal?]
  split
  next heq => rw [heq, Option.some.injEq, Except.error.injEq]
  next heq => simp [heq]

theorem refusal?_out_iff {p : Ports δ} {port v : Byte} {fault : Fault} :
    p.refusal? (.out port v) = some fault ↔ p.RefusesOut port v fault := by
  unfold RefusesOut
  simp only [refusal?]
  split
  next heq => rw [heq, Option.some.injEq, Except.error.injEq]
  next heq => simp [heq]

/-- An input that nobody refuses: every observer is asked, and the port supplies a
value. -/
theorem read_of_heeded {p : Ports δ} {port : Byte} (h : p.refusal? (.inp port) = none) :
    p.read port = (p.asked port, .ok (p.supplied port)) := by
  refine Prod.ext rfl ?_
  simp only [refusal?] at h
  split at h
  next => cases h
  next answer heq =>
    simp only [supplied, read, heq]
    rfl

/-- An output that nobody refuses: every observer is told, and the value is latched. -/
theorem write_of_heeded {p : Ports δ} {port v : Byte} (h : p.refusal? (.out port v) = none) :
    p.write port v = (p.told port v, .ok ()) := by
  refine Prod.ext rfl ?_
  simp only [refusal?] at h
  split at h
  next => cases h
  next heq => exact heq

/-- All observers hear a request that none of them refuses. -/
theorem observers_after {p : Ports δ} {request : Request Byte Byte}
    (h : p.refusal? request = none) :
    (p.after (some request)).observers = p.observers.map (Observer.hears · request) := by
  cases request with
  | inp port =>
    simp only [refusal?] at h
    split at h
    next => cases h
    next heq => exact Observer.notifyIn_of_ok heq
  | out port v =>
    simp only [refusal?] at h
    split at h
    next => cases h
    next heq => exact Observer.notifyOut_of_ok heq

/-! ### Requests in a row -/

/-- The ports after so many requests, one after the other. -/
def course (p : Ports δ) (request : Nat → Request Byte Byte) : Nat → Ports δ
  | 0 => p
  | n + 1 => (p.course request n).after (some (request n))

/-- The observers have heard the requests in order, and nothing else. -/
theorem observers_course {p : Ports δ} {request : Nat → Request Byte Byte} {n : Nat}
    (h : ∀ i < n, (p.course request i).refusal? (request i) = none) :
    (p.course request n).observers =
      p.observers.map fun d => ((List.range n).map request).foldl Observer.hears d := by
  induction n with
  | zero => exact (List.map_id p.observers).symm
  | succ n ih =>
    have hbefore := ih fun i hi => h i (Nat.lt_succ_of_lt hi)
    show ((p.course request n).after _).observers = _
    rw [observers_after (h n (Nat.lt_succ_self n)), hbefore, List.map_map]
    simp only [List.range_succ, List.map_append, List.foldl_append, List.map_cons, List.map_nil,
      List.foldl_cons, List.foldl_nil, Function.comp_def]

end Ports

/-- What a processor finds outside of itself. -/
structure Outside (μ δ : Type) where
  memory : Memory μ Byte
  ports : Ports δ

namespace Outside

variable {μ δ : Type} [Mapper μ Byte] [Observer δ Byte Byte] {o o' : Outside μ δ}
  {request? : Option (Request Byte Byte)}

/-- One comes from the other by reads and writes of memory and the request. -/
structure Reaches (o : Outside μ δ) (request? : Option (Request Byte Byte))
    (o' : Outside μ δ) : Prop where
  memory : o.memory.Used o'.memory
  ports : o'.ports = o.ports.after request?

/-- Where nothing outside has changed, there was no request. -/
theorem Reaches.of_eq (h : o' = o) : o.Reaches none o' := by
  subst h
  exact ⟨.refl, rfl⟩

/-- A read reaches nothing but the memory. -/
theorem Reaches.read (h : o.Reaches request? o') (a : Word) :
    o.Reaches request? ⟨o'.memory.afterRead a, o'.ports⟩ :=
  ⟨h.memory.read a, h.ports⟩

theorem Reaches.readWord (h : o.Reaches request? o') (a : Word) :
    o.Reaches request? ⟨(o'.memory.readWord a).2, o'.ports⟩ :=
  (h.read a).read (a + 1)

/-- A write reaches nothing but the memory. -/
theorem Reaches.write (h : o.Reaches request? o') (a : Word) (v : Byte) :
    o.Reaches request? ⟨o'.memory.write a v, o'.ports⟩ :=
  ⟨h.memory.write a v, h.ports⟩

theorem Reaches.writeWord (h : o.Reaches request? o') (a v : Word) :
    o.Reaches request? ⟨o'.memory.writeWord a v, o'.ports⟩ :=
  (h.write a (lowByte v)).write (a + 1) (highByte v)

theorem Reaches.refl : o.Reaches none o := .of_eq rfl

/-- What is done to memory first may come on top of the request. -/
theorem Reaches.followedBy {o'' : Outside μ δ} (h : o.Reaches none o')
    (h' : o'.Reaches request? o'') : o.Reaches request? o'' := by
  refine ⟨h.memory.trans h'.memory, ?_⟩
  rw [h'.ports, h.ports]
  rfl

/-- What is the same outside is reached as well. -/
theorem Reaches.trans_eq {o'' : Outside μ δ} (h : o.Reaches request? o') (heq : o'' = o') :
    o.Reaches request? o'' := by
  rw [heq]
  exact h

end Outside

/-! ## The 8080 -/

namespace I8080.Machine

variable {μ δ : Type} (m : Machine μ δ)

def outside : Outside μ δ := ⟨m.memory, m.ports⟩

@[simp] theorem outside_setPair (p : Pair) (v : Word) : (m.setPair p v).outside = m.outside := by
  cases p <;> rfl

@[simp] theorem outside_setStackPair (p : StackPair) (v : Word) :
    (m.setStackPair p v).outside = m.outside := by
  cases p <;> rfl

variable [Mapper μ Byte]

/-- What an instruction requests of the ports. -/
def requestOf? : Instruction → Option (Request Byte Byte)
  | .inp port => some (.inp port)
  | .out port => some (.out port m.regs.a)
  | _ => none

variable [Observer δ Byte Byte]

variable {m} in
/-- One of the registers is a cell. -/
theorem reaches_setReg {o : Outside μ δ} (h : o.Reaches none m.outside) (r : Reg) (v : Byte) :
    o.Reaches none (m.setReg r v).outside := by
  cases r with
  | m => exact h.write _ v
  | _ => exact h

theorem reaches_load (r : Reg) : m.outside.Reaches none (m.load r).2.outside := by
  cases r with
  | m => exact Outside.Reaches.refl.read _
  | _ => exact .refl

theorem reaches_callTo (address : Word) :
    m.outside.Reaches none (m.callTo address).outside :=
  Outside.Reaches.refl.writeWord _ _

theorem reaches_goBack : m.outside.Reaches none m.goBack.outside :=
  Outside.Reaches.refl.readWord _

/-- An instruction reads and writes memory and makes its request, and does nothing
else outside. -/
theorem reaches_execute (i : Instruction) :
    m.outside.Reaches (m.requestOf? i) (m.execute i).state.outside := by
  cases i with
  | lxi p v => exact .of_eq (m.outside_setPair p v)
  | ldax p => exact Outside.Reaches.refl.read _
  | lda address => exact Outside.Reaches.refl.read _
  | stax p => exact Outside.Reaches.refl.write _ _
  | sta address => exact Outside.Reaches.refl.write _ _
  | shld address => exact Outside.Reaches.refl.writeWord _ _
  | lhld address =>
    exact (Outside.Reaches.refl.readWord address).trans_eq (outside_setPair _ .h _)
  | inx p => exact .of_eq (m.outside_setPair p _)
  | dcx p => exact .of_eq (m.outside_setPair p _)
  | inr r =>
    refine reaches_setReg (o := m.outside) ?_ r _
    exact m.reaches_load r
  | dcr r =>
    refine reaches_setReg (o := m.outside) ?_ r _
    exact m.reaches_load r
  | mvi r v => exact reaches_setReg .refl r v
  | dad p => exact .of_eq (outside_setPair _ .h _)
  | mov dst src => exact reaches_setReg (m.reaches_load src) dst _
  | alu op r => exact m.reaches_load r
  | pop p =>
    exact (Outside.Reaches.refl.readWord m.regs.sp).trans_eq (outside_setStackPair _ p _)
  | push p => exact Outside.Reaches.refl.writeWord _ _
  | rst n => exact m.reaches_callTo _
  | xthl => exact (Outside.Reaches.refl.readWord _).writeWord _ _
  | ret when? =>
    cases when? with
    | none => exact m.reaches_goBack
    | some cc =>
      simp only [execute]
      split
      next => exact m.reaches_goBack
      next => exact .refl
  | jmp when? address =>
    cases when? with
    | none => exact .refl
    | some cc =>
      simp only [execute]
      split <;> exact .refl
  | call when? address =>
    cases when? with
    | none => exact m.reaches_callTo address
    | some cc =>
      simp only [execute]
      split
      next => exact m.reaches_callTo address
      next => exact .refl
  | inp port =>
    refine ⟨?_, ?_⟩
    all_goals
      simp only [execute]
      split
      all_goals
        next ports _ heq =>
          obtain rfl : m.ports.asked port = ports := congrArg Prod.fst heq
          first
          | rfl
          | exact .refl
  | _ => exact ⟨.refl, rfl⟩

omit [Mapper μ Byte] in
/-- What makes a request breaks off if the request is refused. -/
theorem breaks_iff {i : Instruction} {request : Request Byte Byte} {fault : Fault}
    (h : m.requestOf? i = some request) :
    (∃ m', m.Breaks i fault m') ↔ m.ports.refusal? request = some fault := by
  constructor
  · rintro ⟨m', hbreaks⟩
    cases hbreaks with
    | inp hrefused =>
      cases h
      exact Ports.refusal?_inp_iff.mpr hrefused
    | out hrefused =>
      cases h
      exact Ports.refusal?_out_iff.mpr hrefused
  · intro hrefusal
    cases i with
    | inp port =>
      cases h
      exact ⟨_, .inp (Ports.refusal?_inp_iff.mp hrefusal)⟩
    | out port =>
      cases h
      exact ⟨_, .out (Ports.refusal?_out_iff.mp hrefusal)⟩
    | _ => cases h

/-- An instruction that requests something fails exactly as the observers refuse it. -/
theorem fault?_execute {i : Instruction} {request : Request Byte Byte}
    (h : m.requestOf? i = some request) : (m.execute i).fault? = m.ports.refusal? request := by
  refine Option.ext fun fault => ?_
  rw [Ran.fault?_eq_some_iff, ← m.breaks_iff h]
  exact exists_congr fun m' => execute_eq_error_iff

/-! ### Steps -/

/-- What the next step requests of the ports. -/
def request? : Option (Request Byte Byte) := m.executed?.bind m.begun.requestOf?

omit [Observer δ Byte Byte] in
/-- Fetching an instruction asks nothing of the ports. -/
theorem ports_begun : m.begun.ports = m.ports := by
  unfold begun
  cases m.action <;> rfl

/-- Until its instruction begins, a step does nothing but read. -/
theorem reaches_begun : m.outside.Reaches none m.begun.outside :=
  ⟨m.looked_begun.used, m.ports_begun⟩

omit [Observer δ Byte Byte] in
/-- Only a halted processor runs nothing. -/
theorem action_of_unexecuted (h : m.executed? = none) : m.action = .idle := by
  unfold executed? at h
  cases haction : m.action with
  | idle => rfl
  | service opcode => simp [haction] at h
  | run => simp [haction] at h

/-- A step reaches the memory, and of the ports what it requests. -/
theorem reaches_step : m.outside.Reaches m.request? m.step.state.outside := by
  unfold request?
  cases hexecuted : m.executed? with
  | some i =>
    rw [step_of_executed hexecuted]
    exact m.reaches_begun.followedBy (m.begun.reaches_execute i)
  | none =>
    rw [step_of_idle (m.action_of_unexecuted hexecuted)]
    exact .refl

variable {m} in
/-- A step that requests something fails exactly as the observers refuse it. -/
theorem fault?_step {request : Request Byte Byte} (h : m.request? = some request) :
    m.step.fault? = m.ports.refusal? request := by
  obtain ⟨i, hexecuted, hrequest⟩ := Option.bind_eq_some_iff.mp h
  rw [step_of_executed hexecuted, ← m.ports_begun]
  exact m.begun.fault?_execute hrequest

end I8080.Machine

/-! ## The Z80 -/

namespace Z80.Machine

variable {μ δ : Type} (m : Machine μ δ)

def outside : Outside μ δ := ⟨m.memory, m.ports⟩

@[simp] theorem outside_setReg (which : Reg) (v : Byte) :
    (m.setReg which v).outside = m.outside := by
  cases which <;> rfl

@[simp] theorem outside_setPair (p : Pair) (v : Word) : (m.setPair p v).outside = m.outside := by
  cases p <;> rfl

/-- A block instruction that repeats goes back by the program counter alone. -/
@[simp] theorem outside_again (b : Block) (more : Bool) :
    (m.again b more).state.outside = m.outside := by
  unfold again
  split <;> rfl

variable [Mapper μ Byte]

/-- What an instruction requests of the ports. -/
def requestOf? : Instruction → Option (Request Byte Byte)
  | .inImm port => some (.inp port)
  | .inC _ => some (.inp m.regs.c)
  | .outImm port => some (.out port m.regs.a)
  | .outC src => some (.out m.regs.c (src.elim 0 m.reg))
  | .block b =>
    match b.kind with
    | .inp => some (.inp m.regs.c)
    | .out => some (.out m.regs.c (m.memory.value m.regs.hl))
    | .ld | .cp => none
  | _ => none

variable [Observer δ Byte Byte]

variable {m} in
/-- A place is a register or a cell. -/
theorem reaches_assign {o : Outside μ δ} (h : o.Reaches none m.outside) (p : Place) (v : Byte) :
    o.Reaches none (m.assign p v).outside := by
  cases p with
  | reg which =>
    show o.Reaches none (m.setReg which v).outside
    rw [outside_setReg]
    exact h
  | _ => exact h.write _ v

variable {m} in
theorem reaches_assignCopy {o : Outside μ δ} (h : o.Reaches none m.outside) (target : Place)
    (copy : Option Reg) (v : Byte) : o.Reaches none (m.assignCopy target copy v).outside := by
  cases copy with
  | none => exact reaches_assign h target v
  | some which =>
    show o.Reaches none ((m.assign target v).setReg which v).outside
    rw [outside_setReg]
    exact reaches_assign h target v

theorem reaches_load (p : Place) : m.outside.Reaches none (m.load p).2.outside := by
  cases p with
  | reg which => exact .refl
  | _ => exact Outside.Reaches.refl.read _

theorem reaches_operand (src : Operand) :
    m.outside.Reaches none (m.operand src).2.outside := by
  cases src with
  | place p => exact m.reaches_load p
  | imm v => exact .refl

theorem reaches_callTo (address : Word) :
    m.outside.Reaches none (m.callTo address).outside :=
  Outside.Reaches.refl.writeWord _ _

theorem reaches_goBack : m.outside.Reaches none m.goBack.outside :=
  Outside.Reaches.refl.readWord _

/-- A round of LDI or LDD uses the memory alone. -/
theorem reaches_blockLoad (b : Block) :
    m.outside.Reaches none (m.blockLoad b).state.outside := by
  unfold blockLoad
  rw [outside_again]
  exact (Outside.Reaches.refl.read m.regs.hl).write m.regs.de _

theorem reaches_blockCompare (b : Block) :
    m.outside.Reaches none (m.blockCompare b).state.outside := by
  unfold blockCompare
  rw [outside_again]
  exact Outside.Reaches.refl.read m.regs.hl

/-- A round of INI or IND asks the port in C, and stores what is supplied. -/
theorem reaches_blockIn (b : Block) :
    m.outside.Reaches (some (.inp m.regs.c)) (m.blockIn b).state.outside := by
  unfold blockIn
  split
  next ports _ heq =>
    obtain rfl : m.ports.asked m.regs.c = ports := congrArg Prod.fst heq
    exact ⟨.refl, rfl⟩
  next ports v heq =>
    obtain rfl : m.ports.asked m.regs.c = ports := congrArg Prod.fst heq
    rw [outside_again]
    exact ⟨.write .refl m.regs.hl v, rfl⟩

/-- A round of OUTI or OUTD reads the cell before it tells the port. -/
theorem reaches_blockOut (b : Block) :
    m.outside.Reaches (some (.out m.regs.c (m.memory.value m.regs.hl)))
      (m.blockOut b).state.outside := by
  simp only [blockOut]
  split
  next ports _ heq =>
    obtain rfl : m.ports.told m.regs.c (m.memory.value m.regs.hl) = ports :=
      congrArg Prod.fst heq
    exact ⟨.read .refl m.regs.hl, rfl⟩
  next ports heq =>
    obtain rfl : m.ports.told m.regs.c (m.memory.value m.regs.hl) = ports :=
      congrArg Prod.fst heq
    rw [outside_again]
    exact ⟨.read .refl m.regs.hl, rfl⟩

/-- The one round that a block instruction makes in a step. -/
theorem reaches_blockRound (b : Block) :
    m.outside.Reaches (m.requestOf? (.block b)) (m.blockRound b).state.outside := by
  unfold blockRound
  cases hkind : b.kind with
  | ld =>
    simp only [requestOf?, hkind]
    exact m.reaches_blockLoad b
  | cp =>
    simp only [requestOf?, hkind]
    exact m.reaches_blockCompare b
  | inp =>
    simp only [requestOf?, hkind]
    exact m.reaches_blockIn b
  | out =>
    simp only [requestOf?, hkind]
    exact m.reaches_blockOut b

/-- An instruction reads and writes memory and makes its request, and does nothing
else outside. -/
theorem reaches_execute (i : Instruction) :
    m.outside.Reaches (m.requestOf? i) (m.execute i).state.outside := by
  cases i with
  | ld dst src =>
    refine reaches_assign (o := m.outside) ?_ dst _
    exact m.reaches_operand src
  | alu op src => exact m.reaches_operand src
  | bit n target => exact m.reaches_load target
  | ldPair p v => exact .of_eq (m.outside_setPair p v)
  | loadPair p address =>
    exact (Outside.Reaches.refl.readWord address).trans_eq (outside_setPair _ p _)
  | storePair address p => exact Outside.Reaches.refl.writeWord _ _
  | ldSp p => exact .of_eq (m.outside_setPair .sp _)
  | push p => exact Outside.Reaches.refl.writeWord _ _
  | pop p => exact (Outside.Reaches.refl.readWord m.regs.sp).trans_eq (outside_setPair _ p _)
  | exSp p =>
    refine Outside.Reaches.trans_eq
      ((Outside.Reaches.refl.readWord m.regs.sp).writeWord m.regs.sp (m.pair p)) ?_
    exact outside_setPair _ p _
  | inc target =>
    refine reaches_assign (o := m.outside) ?_ target _
    exact m.reaches_load target
  | dec target =>
    refine reaches_assign (o := m.outside) ?_ target _
    exact m.reaches_load target
  | incPair p => exact .of_eq (m.outside_setPair p _)
  | decPair p => exact .of_eq (m.outside_setPair p _)
  | addPair dst src => exact .of_eq (outside_setPair _ dst _)
  | adcHl p => exact .of_eq (outside_setPair _ .hl _)
  | sbcHl p => exact .of_eq (outside_setPair _ .hl _)
  | rot op target copy =>
    refine reaches_assignCopy (o := m.outside) ?_ target copy _
    exact m.reaches_load target
  | res n target copy => exact reaches_assignCopy (m.reaches_load target) target copy _
  | set n target copy => exact reaches_assignCopy (m.reaches_load target) target copy _
  | rld => exact (Outside.Reaches.refl.read _).write _ _
  | rrd => exact (Outside.Reaches.refl.read _).write _ _
  | reti => exact m.reaches_goBack
  | retn => exact m.reaches_goBack
  | rst address => exact m.reaches_callTo _
  | inImm port =>
    simp only [execute]
    split
    all_goals
      next ports _ heq =>
        obtain rfl : m.ports.asked port = ports := congrArg Prod.fst heq
        exact ⟨.refl, rfl⟩
  | inC dst =>
    simp only [execute]
    split
    all_goals
      next ports _ heq =>
        obtain rfl : m.ports.asked m.regs.c = ports := congrArg Prod.fst heq
        -- without a destination the value only sets flags
        cases dst with
        | none => exact ⟨.refl, rfl⟩
        | some which => cases which <;> exact ⟨.refl, rfl⟩
  | jp when? address =>
    simp only [execute]
    split <;> exact .refl
  | jr when? d =>
    simp only [execute]
    split <;> exact .refl
  | djnz d =>
    simp only [execute]
    split <;> exact .refl
  | call when? address =>
    simp only [execute]
    split
    next => exact m.reaches_callTo address
    next => exact .refl
  | ret when? =>
    simp only [execute]
    split
    next => exact m.reaches_goBack
    next => exact .refl
  | block b => exact m.reaches_blockRound b
  | _ => exact ⟨.refl, rfl⟩

/-- What makes a request breaks off if the request is refused. -/
theorem breaks_iff {i : Instruction} {request : Request Byte Byte} {fault : Fault}
    (h : m.requestOf? i = some request) :
    (∃ m', m.Breaks i fault m') ↔ m.ports.refusal? request = some fault := by
  constructor
  · rintro ⟨m', hbreaks⟩
    cases hbreaks with
    | inImm hrefused =>
      cases h
      exact Ports.refusal?_inp_iff.mpr hrefused
    | inC hrefused =>
      cases h
      exact Ports.refusal?_inp_iff.mpr hrefused
    | outImm hrefused =>
      cases h
      exact Ports.refusal?_out_iff.mpr hrefused
    | outC hrefused =>
      cases h
      exact Ports.refusal?_out_iff.mpr hrefused
    | blockIn hkind hrefused =>
      simp only [requestOf?, hkind] at h
      cases h
      exact Ports.refusal?_inp_iff.mpr hrefused
    | blockOut hkind hrefused =>
      simp only [requestOf?, hkind] at h
      cases h
      exact Ports.refusal?_out_iff.mpr hrefused
  · intro hrefusal
    cases i with
    | inImm port =>
      cases h
      exact ⟨_, .inImm (Ports.refusal?_inp_iff.mp hrefusal)⟩
    | inC dst =>
      cases h
      exact ⟨_, .inC (Ports.refusal?_inp_iff.mp hrefusal)⟩
    | outImm port =>
      cases h
      exact ⟨_, .outImm (Ports.refusal?_out_iff.mp hrefusal)⟩
    | outC src =>
      cases h
      exact ⟨_, .outC (Ports.refusal?_out_iff.mp hrefusal)⟩
    | block b =>
      simp only [requestOf?] at h
      split at h
      next hkind =>
        cases h
        exact ⟨_, .blockIn hkind (Ports.refusal?_inp_iff.mp hrefusal)⟩
      next hkind =>
        cases h
        exact ⟨_, .blockOut hkind (Ports.refusal?_out_iff.mp hrefusal)⟩
      all_goals cases h
    | _ => cases h

/-- An instruction that requests something fails exactly as the observers refuse it. -/
theorem fault?_execute {i : Instruction} {request : Request Byte Byte}
    (h : m.requestOf? i = some request) : (m.execute i).fault? = m.ports.refusal? request := by
  refine Option.ext fun fault => ?_
  rw [Ran.fault?_eq_some_iff, ← m.breaks_iff h]
  exact exists_congr fun m' => execute_eq_error_iff

/-! ### Steps -/

/-- What the next step requests of the ports. -/
def request? : Option (Request Byte Byte) := m.executed?.bind m.begun.requestOf?

omit [Observer δ Byte Byte] in
/-- Fetching an instruction asks nothing of the ports, whoever supplies it. -/
theorem ports_begun : m.begun.ports = m.ports := by
  unfold begun
  cases m.action <;> rfl

/-- Until its instruction begins, a step does nothing but read. -/
theorem reaches_begun : m.outside.Reaches none m.begun.outside :=
  ⟨m.looked_begun.used, m.ports_begun⟩

/-- A step that runs no instruction may push the program counter, when it calls a
handler. -/
theorem reaches_unexecuted (h : m.executed? = none) :
    m.outside.Reaches none m.step.state.outside := by
  cases unexecuted_of_eq_none h with
  | nmi haction =>
    rw [step_of_nmi haction]
    exact reaches_callTo _ nmiVector
  | idle haction =>
    rw [step_of_idle haction]
    exact .refl
  | unread haction hfetched =>
    rw [step_of_undecodable haction hfetched]
    exact ⟨(Memory.Looked.reads .refl _ _).used, rfl⟩
  | unsupplied haction hmode hsupplied =>
    rw [step_of_supplied_error haction hmode hsupplied]
    exact m.reaches_begun
  | modeOne haction hmode =>
    rw [step_of_modeOne haction hmode]
    exact reaches_callTo _ modeOneVector
  | modeTwo haction hmode =>
    rw [step_of_modeTwo haction hmode]
    exact (Outside.Reaches.refl.readWord _).writeWord _ _

/-- A step reaches the memory, and of the ports what it requests. -/
theorem reaches_step : m.outside.Reaches m.request? m.step.state.outside := by
  unfold request?
  cases hexecuted : m.executed? with
  | some i =>
    obtain ⟨cost, hstep⟩ := step_eq_of_executed hexecuted
    rw [hstep]
    exact m.reaches_begun.followedBy (m.begun.reaches_execute i)
  | none => exact m.reaches_unexecuted hexecuted

-- LD A,(0xff00) twice: what it loads is a count of the reads.
example :
    let memory : Memory (Tally Byte) Byte :=
      ⟨⟨#[0x3a, 0x00, 0xff, 0x3a, 0x00, 0xff]⟩, some ⟨0xff00, 0x10⟩⟩
    let m : Machine (Tally Byte) (Recorder Byte Byte) := new memory 0
    m.step.state.regs.a = 0x11 ∧ m.step.state.step.state.regs.a = 0x12 ∧
      m.step.state.step.state.memory.mapper = some ⟨0xff00, 0x12⟩ := by
  decide +kernel

variable {m} in
/-- A step that requests something fails exactly as the observers refuse it. -/
theorem fault?_step {request : Request Byte Byte} (h : m.request? = some request) :
    m.step.fault? = m.ports.refusal? request := by
  obtain ⟨i, hexecuted, hrequest⟩ := Option.bind_eq_some_iff.mp h
  obtain ⟨cost, hstep⟩ := step_eq_of_executed hexecuted
  rw [hstep, Ran.fault?_map_result, ← m.ports_begun]
  exact m.begun.fault?_execute hrequest

end Z80.Machine

end Retrocore
