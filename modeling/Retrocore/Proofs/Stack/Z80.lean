import Retrocore.Proofs.Faults.Z80
import Retrocore.Proofs.Operations
import Retrocore.Proofs.Stack.Words
import Retrocore.Proofs.Z80.Grammar

/-!
# The stack of the Z80

As on the 8080, PUSH, taken calls and restarts push a word and leave the registers and flags as they
are, and so do the service of an interrupt in modes one and two and that of a non-maskable one
(`Pushed`). The refresh register is apart from this, since it counts on. Whatever comes next finds
the word on top (`pop_of_follows`), so that every return goes back to where the handler or the
routine was entered from.
-/

namespace Retrocore.Z80

/-- A return without a condition. -/
def Instruction.isReturn : Instruction → Bool
  | .ret none | .reti | .retn => true
  | _ => false

namespace Machine

variable {μ δ : Type} {m : Machine μ δ}

/-! ## Pairs -/

theorem setPair_pair (m : Machine μ δ) (p : Pair) : m.setPair p (m.pair p) = m := by
  cases p <;>
    simp only [setPair, pair, Registers.bc, Registers.de, Registers.hl, highByte_wordOf,
      lowByte_wordOf, Flags.ofByte_toByte]

/-- A pair has nothing to do with the program counter and the refresh register. -/
theorem pair_congr {n : Machine μ δ} {pc : Word} {r : Byte}
    (hregs : n.regs = { m.regs with pc, r }) (hflags : n.flags = m.flags) (p : Pair) :
    n.pair p = m.pair p := by
  cases p <;>
    simp only [pair, Registers.bc, Registers.de, Registers.hl, hregs, hflags]

/-- Only a processor that is awake runs an instruction. -/
theorem halted_of_run (h : m.action = .run) : m.halted = false := by
  unfold action at h
  split at h
  next => cases h
  next =>
    split at h
    next => cases h
    next =>
      split at h
      next => cases h
      next hawake => exact Bool.eq_false_iff.mpr hawake

/-- A processor that is awake runs what stands at the program counter, unless it services a
request. -/
theorem action_of_quiet (hawake : m.halted = false) (hnmi : m.action ≠ .nmi)
    (hquiet : ∀ byte, m.action ≠ .service byte) : m.action = .run := by
  unfold action at hnmi hquiet ⊢
  split
  next h => exact absurd (if_pos h) hnmi
  next h =>
    rw [if_neg h] at hquiet
    split
    next byte hiff1 hpending =>
      rw [hiff1, hpending] at hquiet
      exact absurd rfl (hquiet byte)
    next => rw [hawake, if_neg Bool.false_ne_true]

variable [Mapper μ Byte] [Observer δ Byte Byte]

/-! ## What is pushed is on top -/

/-- A word has been pushed. -/
structure Pushed (m : Machine μ δ) (v : Word) (first : Ran (Machine μ δ)) : Prop where
  result : ∃ cost, first.result = .ok cost
  regs : first.state.regs = { m.regs with
    sp := m.regs.sp - 2, pc := first.state.regs.pc, r := first.state.regs.r }
  flags : first.state.flags = m.flags
  memory : first.state.memory = m.memory.writeWord (m.regs.sp - 2) v
  awake : first.state.halted = false

/-- The stack is what it was, and so are the registers and flags, but for the program counter and
the refresh register. -/
structure Balanced (m : Machine μ δ) (pc : Word) (first second : Ran (Machine μ δ)) : Prop where
  first_ok : ∃ cost, first.result = .ok cost
  second_ok : ∃ cost, second.result = .ok cost
  regs : second.state.regs = { m.regs with pc, r := second.state.regs.r }
  flags : second.state.flags = m.flags
  memory : ∀ a, OffStack m.regs.sp a → second.state.memory.value a = m.memory.value a

open Operable

/-- An instruction stands where the next step goes, in cells that are off the stack. Requests may
come before it is run, but none is serviced. -/
structure Follows (m : Machine μ δ) (requests : List Signal) (d : Decoded Instruction) : Prop where
  stands : decode (m.memory.stream m.step.state.regs.pc) = .ok d
  off : ∀ j < d.length, OffStack m.regs.sp (m.step.state.regs.pc + UInt16.ofNat j)
  latched : ∀ signal ∈ requests, signal.isStep = false
  quiet_nmi : (after m.step.state requests).action ≠ .nmi
  quiet : ∀ byte, (after m.step.state requests).action ≠ .service byte

/-- Requests are latched and nothing else. -/
theorem after_requests {requests : List Signal} (h : ∀ signal ∈ requests, signal.isStep = false) :
    ∃ pending nmiPending, after m requests = { m with pending, nmiPending } := by
  induction requests generalizing m with
  | nil => exact ⟨m.pending, m.nmiPending, rfl⟩
  | cons signal signals ih =>
    obtain ⟨hfirst, hrest⟩ := List.forall_mem_cons.mp h
    cases signal with
    | step => cases hfirst
    | interrupt byte =>
      obtain ⟨pending, nmiPending, hafter⟩ := ih (m := m.interrupt byte) hrest
      exact ⟨pending, nmiPending, hafter⟩
    | nmi =>
      obtain ⟨pending, nmiPending, hafter⟩ := ih (m := m.interruptNmi) hrest
      exact ⟨pending, nmiPending, hafter⟩

omit [Observer δ Byte Byte] in
/-- A word that has been pushed is found by the next POP, which puts the stack pointer
back; R has gone on counting. -/
theorem pop_of_pushed (hplain : m.memory.Plain) {t : Machine μ δ} {v pc : Word} {r : Byte}
    (hregs : t.regs = { m.regs with sp := m.regs.sp - 2, pc, r })
    (hmemory : t.memory = m.memory.writeWord (m.regs.sp - 2) v) :
    t.pop = (v, { t with regs := { m.regs with pc, r } }) := by
  have hword : t.memory.readWord t.regs.sp = (v, t.memory) := by
    rw [hmemory, hregs]
    exact hplain.readWord_writeWord _ v
  unfold pop readWord
  rw [hword]
  simp only [hregs, UInt16.sub_add_cancel]

omit [Observer δ Byte Byte] in
/-- What an instruction finds is the machine as it was, but for the latches, the program counter
and the refresh register. -/
theorem begun_of_executed (hquiet : m.memory.Quiet) {i : Instruction}
    (h : m.executed? = some i) :
    (∃ pc r, m.begun.regs = { m.regs with pc, r }) ∧ m.begun.flags = m.flags ∧
      m.begun.memory = m.memory ∧ m.begun.halted = false := by
  unfold begun
  obtain ⟨byte, d, haction, -, -, -⟩ | ⟨d, haction, -, -⟩ := read_of_executed h
  · simp only [haction]
    exact ⟨⟨_, _, rfl⟩, rfl, hquiet.afterReads _ _, rfl⟩
  · simp only [haction]
    exact ⟨⟨_, _, rfl⟩, rfl, hquiet.afterReads _ _, halted_of_run haction⟩

/-- The instruction that follows finds the word on top of the stack. -/
theorem pop_of_follows (hplain : m.memory.Plain) {v : Word} (hpushed : m.Pushed v m.step)
    {requests : List Signal} {d : Decoded Instruction} (hfollows : m.Follows requests d) :
    ∃ t : Machine μ δ,
      (after m.step.state requests).step = (t.execute d.instruction).plus (Cycles.of d) ∧
      t.pop = (v, { t with regs := { m.regs with pc := t.regs.pc, r := t.regs.r } }) ∧
      t.flags = m.flags ∧ t.memory = m.memory.writeWord (m.regs.sp - 2) v := by
  obtain ⟨-, hregs, hflags, hmemory, hawake⟩ := hpushed
  obtain ⟨pending, nmiPending, hafter⟩ := after_requests (m := m.step.state) hfollows.latched
  have hnmi := hfollows.quiet_nmi
  have hquiet := hfollows.quiet
  rw [hafter] at hnmi hquiet ⊢
  have hrun := action_of_quiet (m := { m.step.state with pending, nmiPending }) hawake hnmi
    hquiet
  have hstands : decode (m.step.state.memory.stream m.step.state.regs.pc) = .ok d := by
    rw [hmemory]
    exact (reads_of_decode hfollows.stands).sufficient _ (hplain.stream_pushed hfollows.off v)
  have hwritten : m.step.state.memory.Plain := hmemory ▸ hplain.writeWord _ _
  have hstep := step_of_fetched hrun hstands
  rw [advance_of_quiet (m := { m.step.state with pending, nmiPending }) hwritten.quiet] at hstep
  have hregs' : ∀ pc r, { m.step.state.regs with pc, r } =
      { m.regs with sp := m.regs.sp - 2, pc, r } := by
    intro pc r
    rw [hregs]
  exact ⟨_, hstep, pop_of_pushed hplain (hregs' _ _) hmemory, hflags, hmemory⟩

/-- Two steps that push a word and take it off again balance, if the second changes
nothing else but R. -/
theorem Pushed.balanced (hplain : m.memory.Plain) {v pc : Word} (hpushed : m.Pushed v m.step)
    {second : Ran (Machine μ δ)} (hok : ∃ cost, second.result = .ok cost)
    (hregs : second.state.regs = { m.regs with pc, r := second.state.regs.r })
    (hflags : second.state.flags = m.flags)
    (hmemory : second.state.memory = m.memory.writeWord (m.regs.sp - 2) v) :
    m.Balanced pc m.step second where
  first_ok := hpushed.result
  second_ok := hok
  regs := hregs
  flags := hflags
  memory a ha := by
    rw [hmemory]
    exact hplain.value_pushed ha v

/-! ## PUSH and POP -/

/-- PUSH pushes the pair that it names. -/
theorem pushed_of_push (hquiet : m.memory.Quiet) {p : Pair}
    (h : m.executed? = some (.push p)) : m.Pushed (m.pair p) m.step := by
  obtain ⟨⟨pc, r, hregs⟩, hflags, hmemory, hawake⟩ := begun_of_executed hquiet h
  obtain ⟨cost, hstep⟩ := step_eq_of_executed h
  rw [hstep]
  exact {
    result := ⟨cost 0, rfl⟩
    regs := by simp only [execute, push, Ran.free, hregs]
    flags := hflags
    memory := by
      simp only [execute, push, Ran.free, hregs, hmemory]
      rw [pair_congr hregs hflags]
    awake := hawake }

/-- **PUSH and POP of a pair change nothing.** -/
theorem push_pop_balanced (hplain : m.memory.Plain) {p : Pair}
    (hpush : m.executed? = some (.push p)) {requests : List Signal} {d : Decoded Instruction}
    (hfollows : m.Follows requests d) (hpop : d.instruction = .pop p) :
    ∃ pc, m.Balanced pc m.step (after m.step.state requests).step := by
  have hpushed := pushed_of_push hplain.quiet hpush
  obtain ⟨t, hstep, htop, hflags, hmemory⟩ := pop_of_follows hplain hpushed hfollows
  rw [hpop] at hstep
  let u : Machine μ δ := { t with regs := { m.regs with pc := t.regs.pc, r := t.regs.r } }
  have hsame : u.setPair p (m.pair p) = u := by
    have hpair : u.pair p = m.pair p := pair_congr (n := u) rfl hflags p
    rw [← hpair]
    exact u.setPair_pair p
  have hresult : t.execute (.pop p) = .free u := by
    simp only [execute, htop]
    exact congrArg Ran.free hsame
  rw [hstep, hresult]
  exact ⟨t.regs.pc, hpushed.balanced hplain ⟨_, rfl⟩ rfl hflags hmemory⟩

/-! ## Calls and returns -/

/-- The next step goes to `target` and pushes `back`: it runs a call that is taken or a restart, or
it services an interrupt that supplies no instruction. -/
inductive Enters (m : Machine μ δ) : Word → Word → Prop
  | call {d : Decoded Instruction} {when? : Option Condition} {target : Word}
    (haction : m.action = .run) (hfetched : m.fetched = .ok d)
    (hcall : d.instruction = .call when? target) (htaken : m.taken when? = true) :
    Enters m target (m.regs.pc + UInt16.ofNat d.length)
  | rst {d : Decoded Instruction} {address : Byte} (haction : m.action = .run)
    (hfetched : m.fetched = .ok d) (hrst : d.instruction = .rst address) :
    Enters m address.toUInt16 (m.regs.pc + UInt16.ofNat d.length)
  | modeOne {byte : Byte} (haction : m.action = .service byte) (hmode : m.mode = .one) :
    Enters m modeOneVector m.regs.pc
  | modeTwo {byte : Byte} (haction : m.action = .service byte) (hmode : m.mode = .two) :
    Enters m (m.memory.readWord (wordOf m.regs.i byte)).1 m.regs.pc
  | nmi (haction : m.action = .nmi) : Enters m nmiVector m.regs.pc

omit [Observer δ Byte Byte] in
/-- A call pushes where it comes from. -/
theorem pushed_callTo {n : Machine μ δ} {pc target : Word} {r : Byte} {cost : Nat}
    (hregs : n.regs = { m.regs with pc, r }) (hflags : n.flags = m.flags)
    (hmemory : n.memory = m.memory) (hawake : n.halted = false) :
    m.Pushed pc ⟨n.callTo target, .ok cost⟩ where
  result := ⟨cost, rfl⟩
  regs := by simp only [callTo, push, jump, hregs]
  flags := hflags
  memory := by simp only [callTo, push, jump, hregs, hmemory]
  awake := hawake

/-- So an entry pushes the address to come back to, whoever has caused it. -/
theorem pushed_of_enters (hquiet : m.memory.Quiet) {target back : Word}
    (h : m.Enters target back) : m.Pushed back m.step ∧ m.step.state.regs.pc = target := by
  cases h with
  | @call d when? _ haction hfetched hcall htaken =>
    obtain ⟨cost, hstep⟩ : ∃ cost, m.step =
        ⟨((m.advance d.length).refresh d.fetches).callTo target, .ok cost⟩ := by
      have htaken' : ((m.advance d.length).refresh d.fetches).taken when? = true := htaken
      rw [step_of_fetched haction hfetched, hcall]
      simp only [execute, htaken', if_true]
      exact ⟨_, rfl⟩
    rw [hstep]
    exact ⟨pushed_callTo rfl rfl (hquiet.afterReads _ _) (halted_of_run haction), rfl⟩
  | @rst d address haction hfetched hrst =>
    rw [step_of_fetched haction hfetched, hrst]
    exact ⟨pushed_callTo rfl rfl (hquiet.afterReads _ _) (halted_of_run haction), rfl⟩
  | modeOne haction hmode =>
    rw [step_of_modeOne haction hmode]
    exact ⟨pushed_callTo rfl rfl rfl rfl, rfl⟩
  | @modeTwo byte haction hmode =>
    have hmemory : (m.memory.readWord (wordOf m.regs.i byte)).2 = m.memory := by
      rw [hquiet.readWord]
    rw [step_of_modeTwo haction hmode]
    exact ⟨pushed_callTo rfl rfl hmemory rfl, rfl⟩
  | nmi haction =>
    rw [step_of_nmi haction]
    exact ⟨pushed_callTo rfl rfl rfl rfl, rfl⟩

/-- A return may let interrupts through, and does nothing else besides. -/
theorem execute_return {i : Instruction} (h : i.isReturn = true) (t : Machine μ δ) :
    ∃ iff1, t.execute i = ⟨{ t.goBack with iff1 }, .ok 0⟩ := by
  unfold Instruction.isReturn at h
  split at h
  next => exact ⟨t.iff1, rfl⟩
  next => exact ⟨t.iff1, rfl⟩
  next => exact ⟨t.iff2, rfl⟩
  next => cases h

/-- **What is called comes back.** -/
theorem enter_return_balanced (hplain : m.memory.Plain) {target back : Word}
    (henters : m.Enters target back) {requests : List Signal} {d : Decoded Instruction}
    (hfollows : m.Follows requests d) (hreturn : d.instruction.isReturn = true) :
    m.step.state.regs.pc = target ∧
    m.Balanced back m.step (after m.step.state requests).step := by
  obtain ⟨hpushed, htarget⟩ := pushed_of_enters hplain.quiet henters
  obtain ⟨t, hstep, htop, hflags, hmemory⟩ := pop_of_follows hplain hpushed hfollows
  obtain ⟨iff1, hexecute⟩ := execute_return hreturn t
  have hback : t.goBack = { t with regs := { m.regs with pc := back, r := t.regs.r } } := by
    simp only [goBack, htop, jump]
  rw [hstep, hexecute, hback]
  exact ⟨htarget, hpushed.balanced hplain ⟨_, rfl⟩ rfl hflags hmemory⟩

end Machine

end Retrocore.Z80
