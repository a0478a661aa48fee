import Retrocore.Proofs.Disassembly.Locality
import Retrocore.Proofs.Lr35902.Delay
import Retrocore.Proofs.Operations
import Retrocore.Proofs.Stack.Words

/-!
# The stack of the LR35902

It is used as on the 8080: PUSH, taken calls, restarts and the service of an interrupt push a word
and leave the registers and flags as they are (`Pushed`), and whatever comes next finds the word on
top (`pop_of_follows`). F survives because its four low bits are no flags and always read as zero.
-/

namespace Retrocore.Lr35902

/-- A return without a condition. -/
def Instruction.isReturn : Instruction → Bool
  | .ret none | .reti => true
  | _ => false

namespace Machine

variable {μ : Type} {m : Machine μ}

/-! ## Pairs -/

theorem setPair_pair (m : Machine μ) (p : Pair) : m.setPair p (m.pair p) = m := by
  cases p <;>
    simp only [setPair, pair, Registers.bc, Registers.de, Registers.hl, highByte_wordOf,
      lowByte_wordOf, Flags.ofByte_toByte]

/-- A pair has nothing to do with the program counter. -/
theorem pair_congr {n : Machine μ} {pc : Word} (hregs : n.regs = { m.regs with pc })
    (hflags : n.flags = m.flags) (p : Pair) : n.pair p = m.pair p := by
  cases p <;>
    simp only [pair, Registers.bc, Registers.de, Registers.hl, hregs, hflags]

/-- A processor that is awake runs what stands at the program counter, unless it services a
request. -/
theorem action_of_quiet (hawake : m.halted = false)
    (hquiet : ∀ vector, m.action ≠ .service vector) : m.action = .run := by
  unfold action at hquiet ⊢
  split
  next vector hpending =>
    split
    next hime =>
      rw [hpending] at hquiet
      exact absurd (if_pos hime) (hquiet vector)
    next => rfl
  next => rw [hawake, if_neg Bool.false_ne_true]

variable [Mapper μ Byte]

/-! ## What is pushed is on top -/

/-- A word has been pushed. -/
structure Pushed (m : Machine μ) (v : Word) (first : Ran (Machine μ)) : Prop where
  result : ∃ cost, first.result = .ok cost
  regs : first.state.regs = { m.regs with sp := m.regs.sp - 2, pc := first.state.regs.pc }
  flags : first.state.flags = m.flags
  memory : first.state.memory = m.memory.writeWord (m.regs.sp - 2) v
  awake : first.state.halted = false

/-- The stack is what it was, and so are the registers and flags, but for the program counter. -/
structure Balanced (m : Machine μ) (pc : Word) (first second : Ran (Machine μ)) : Prop where
  first_ok : ∃ cost, first.result = .ok cost
  second_ok : ∃ cost, second.result = .ok cost
  regs : second.state.regs = { m.regs with pc }
  flags : second.state.flags = m.flags
  memory : ∀ a, OffStack m.regs.sp a → second.state.memory.value a = m.memory.value a

/-- An instruction stands where the next step goes, in cells that are off the stack. Requests may
come before it is run, but none is serviced. -/
structure Follows (m : Machine μ) (requests : List Call) (d : Decoded Instruction) : Prop where
  stands : decode (m.memory.stream m.step.state.regs.pc) = .ok d
  off : ∀ j < d.length, OffStack m.regs.sp (m.step.state.regs.pc + UInt16.ofNat j)
  latched : ∀ c ∈ requests, c.isStep = false
  quiet : ∀ vector, (Core.after m.step.state requests).action ≠ .service vector

/-- Requests are latched and nothing else. -/
theorem after_requests {requests : List Call} (h : ∀ c ∈ requests, c.isStep = false) :
    ∃ pending, Core.after m requests = { m with pending } := by
  induction requests generalizing m with
  | nil => exact ⟨m.pending, rfl⟩
  | cons c cs ih =>
    obtain ⟨hfirst, hrest⟩ := List.forall_mem_cons.mp h
    cases c with
    | step => cases hfirst
    | interrupt byte =>
      obtain ⟨pending, hafter⟩ := ih (m := m.interrupt byte) hrest
      exact ⟨pending, hafter⟩

/-- A word that has been pushed is found by the next POP, which puts the stack pointer
back. -/
theorem pop_of_pushed (hplain : m.memory.Plain) {t : Machine μ} {v pc : Word}
    (hregs : t.regs = { m.regs with sp := m.regs.sp - 2, pc })
    (hmemory : t.memory = m.memory.writeWord (m.regs.sp - 2) v) :
    t.pop = (v, { t with regs := { m.regs with pc } }) := by
  have hword : t.memory.readWord t.regs.sp = (v, t.memory) := by
    rw [hmemory, hregs]
    exact hplain.readWord_writeWord _ v
  unfold pop readWord
  rw [hword]
  simp only [hregs, UInt16.sub_add_cancel]

/-- What runs is executed by a machine that is the same but for its latches and the program
counter. -/
theorem step_of_run (hquiet : m.memory.Quiet) (haction : m.action = .run)
    {d : Decoded Instruction} (hfetched : m.fetched = .ok d) :
    ∃ t : Machine μ, (∃ cost, m.step = ⟨(t.execute d.instruction).1, .ok cost⟩) ∧
      t.regs = { m.regs with pc := m.regs.pc + UInt16.ofNat d.length } ∧ t.flags = m.flags ∧
      t.memory = m.memory ∧ t.halted = false := by
  rw [step_of_fetched haction hfetched]
  exact ⟨_, ⟨_, rfl⟩, rfl, rfl, hquiet.afterReads _ _, rfl⟩

/-- The instruction that follows finds the word on top of the stack. -/
theorem pop_of_follows (hplain : m.memory.Plain) {v : Word} (hpushed : m.Pushed v m.step)
    {requests : List Call} {d : Decoded Instruction} (hfollows : m.Follows requests d) :
    ∃ t : Machine μ,
      (∃ cost, (Core.after m.step.state requests).step =
        ⟨(t.execute d.instruction).1, .ok cost⟩) ∧
      t.pop = (v, { t with regs := { m.regs with pc := t.regs.pc } }) ∧
      t.flags = m.flags ∧ t.memory = m.memory.writeWord (m.regs.sp - 2) v := by
  obtain ⟨-, hregs, hflags, hmemory, hawake⟩ := hpushed
  obtain ⟨pending, hafter⟩ := after_requests (m := m.step.state) hfollows.latched
  have hquiet := hfollows.quiet
  rw [hafter] at hquiet ⊢
  have hrun := action_of_quiet (m := { m.step.state with pending }) hawake hquiet
  have hstands : decode (m.step.state.memory.stream m.step.state.regs.pc) = .ok d := by
    rw [hmemory]
    exact decode_of_agree hfollows.stands (hplain.stream_pushed hfollows.off v)
  have hwritten : m.step.state.memory.Plain := hmemory ▸ hplain.writeWord _ _
  obtain ⟨t, hstep, htregs, htflags, htmemory, -⟩ :=
    step_of_run (m := { m.step.state with pending }) hwritten.quiet hrun hstands
  have hregs' : ∀ pc, { m.step.state.regs with pc } = { m.regs with sp := m.regs.sp - 2, pc } := by
    intro pc
    rw [hregs]
  have htop := pop_of_pushed hplain (htregs.trans (hregs' _)) (htmemory.trans hmemory)
  have hpc := congrArg Registers.pc htregs
  refine ⟨t, hstep, ?_, htflags.trans hflags, htmemory.trans hmemory⟩
  rw [htop, hpc]

/-- Two steps that push a word and take it off again balance, if the second changes
nothing else. -/
theorem Pushed.balanced (hplain : m.memory.Plain) {v pc : Word} (hpushed : m.Pushed v m.step)
    {second : Ran (Machine μ)} (hok : ∃ cost, second.result = .ok cost)
    (hregs : second.state.regs = { m.regs with pc }) (hflags : second.state.flags = m.flags)
    (hmemory : second.state.memory = m.memory.writeWord (m.regs.sp - 2) v) :
    m.Balanced pc m.step second where
  first_ok := hpushed.result
  second_ok := hok
  regs := hregs
  flags := hflags
  memory a ha := by
    rw [hmemory]
    exact hplain.value_pushed ha v

/-! ## PUSH and POP -/

/-- PUSH pushes the pair that it names. -/
theorem pushed_of_push (hquiet : m.memory.Quiet) {p : Pair}
    (h : m.running? = some (.push p)) : m.Pushed (m.pair p) m.step := by
  obtain ⟨haction, d, hfetched, hpush⟩ := running?_eq_some_iff.mp h
  obtain ⟨t, ⟨cost, hstep⟩, hregs, hflags, hmemory, hawake⟩ := step_of_run hquiet haction hfetched
  rw [hstep, hpush]
  exact {
    result := ⟨cost, rfl⟩
    regs := by simp only [execute, push, hregs]
    flags := hflags
    memory := by
      simp only [execute, push, hregs, hmemory]
      rw [pair_congr hregs hflags]
    awake := hawake }

/-- **PUSH and POP of a pair change nothing.** -/
theorem push_pop_balanced (hplain : m.memory.Plain) {p : Pair}
    (hpush : m.running? = some (.push p)) {requests : List Call} {d : Decoded Instruction}
    (hfollows : m.Follows requests d) (hpop : d.instruction = .pop p) :
    ∃ pc, m.Balanced pc m.step (Core.after m.step.state requests).step := by
  have hpushed := pushed_of_push hplain.quiet hpush
  obtain ⟨t, ⟨cost, hstep⟩, htop, hflags, hmemory⟩ := pop_of_follows hplain hpushed hfollows
  rw [hpop] at hstep
  let u : Machine μ := { t with regs := { m.regs with pc := t.regs.pc } }
  have hsame : u.setPair p (m.pair p) = u := by
    have hpair : u.pair p = m.pair p := pair_congr (n := u) rfl hflags p
    rw [← hpair]
    exact u.setPair_pair p
  have hresult : (t.execute (.pop p)).1 = u := by
    simp only [execute, htop]
    exact hsame
  rw [hstep, hresult]
  exact ⟨t.regs.pc, hpushed.balanced hplain ⟨cost, rfl⟩ rfl hflags hmemory⟩

/-! ## Calls and returns -/

/-- The next step goes to `target` and pushes `back`: it runs a call that is taken or a restart, or
it services a request. -/
inductive Enters (m : Machine μ) : Word → Word → Prop
  | call {d : Decoded Instruction} {when? : Option Condition} {target : Word}
    (haction : m.action = .run) (hfetched : m.fetched = .ok d)
    (hcall : d.instruction = .call when? target) (htaken : m.taken when? = true) :
    Enters m target (m.regs.pc + UInt16.ofNat d.length)
  | rst {d : Decoded Instruction} {address : Byte} (haction : m.action = .run)
    (hfetched : m.fetched = .ok d) (hrst : d.instruction = .rst address) :
    Enters m address.toUInt16 (m.regs.pc + UInt16.ofNat d.length)
  | service {vector : Byte} (haction : m.action = .service vector) :
    Enters m vector.toUInt16 m.regs.pc

/-- A call pushes where it comes from. -/
theorem pushed_callTo {n : Machine μ} {pc target : Word} {cost : Nat}
    (hregs : n.regs = { m.regs with pc }) (hflags : n.flags = m.flags)
    (hmemory : n.memory = m.memory) (hawake : n.halted = false) :
    m.Pushed pc ⟨n.callTo target, .ok cost⟩ where
  result := ⟨cost, rfl⟩
  regs := by simp only [callTo, push, jump, hregs]
  flags := hflags
  memory := by simp only [callTo, push, jump, hregs, hmemory]
  awake := hawake

/-- So an entry pushes the address to come back to, be it a call, a restart or a
request. -/
theorem pushed_of_enters (hquiet : m.memory.Quiet) {target back : Word}
    (h : m.Enters target back) : m.Pushed back m.step ∧ m.step.state.regs.pc = target := by
  cases h with
  | @call d when? _ haction hfetched hcall htaken =>
    obtain ⟨t, ⟨cost, hstep⟩, hregs, hflags, hmemory, hawake⟩ := step_of_run hquiet haction hfetched
    have htaken' : t.taken when? = true := by
      unfold taken
      rwa [hflags]
    have hcalled : (t.execute (.call when? target)).1 = t.callTo target := by
      simp only [execute, htaken', if_true]
    rw [hstep, hcall, hcalled]
    exact ⟨pushed_callTo hregs hflags hmemory hawake, rfl⟩
  | @rst d address haction hfetched hrst =>
    obtain ⟨t, ⟨cost, hstep⟩, hregs, hflags, hmemory, hawake⟩ := step_of_run hquiet haction hfetched
    rw [hstep, hrst]
    exact ⟨pushed_callTo hregs hflags hmemory hawake, rfl⟩
  | service haction =>
    rw [step_of_service haction]
    exact ⟨pushed_callTo rfl rfl rfl rfl, rfl⟩

/-- A return may let interrupts through, and does nothing else besides. -/
theorem execute_return {i : Instruction} (h : i.isReturn = true) (t : Machine μ) :
    ∃ ime, (t.execute i).1 = { t.goBack with ime } := by
  unfold Instruction.isReturn at h
  split at h
  next => exact ⟨t.ime, rfl⟩
  next => exact ⟨true, rfl⟩
  next => cases h

/-- **What is called comes back.** -/
theorem enter_return_balanced (hplain : m.memory.Plain) {target back : Word}
    (henters : m.Enters target back) {requests : List Call} {d : Decoded Instruction}
    (hfollows : m.Follows requests d) (hreturn : d.instruction.isReturn = true) :
    m.step.state.regs.pc = target ∧
    m.Balanced back m.step (Core.after m.step.state requests).step := by
  obtain ⟨hpushed, htarget⟩ := pushed_of_enters hplain.quiet henters
  obtain ⟨t, ⟨cost, hstep⟩, htop, hflags, hmemory⟩ := pop_of_follows hplain hpushed hfollows
  obtain ⟨ime, hexecute⟩ := execute_return hreturn t
  have hback : t.goBack = { t with regs := { m.regs with pc := back } } := by
    simp only [goBack, htop, jump]
  rw [hstep, hexecute, hback]
  exact ⟨htarget, hpushed.balanced hplain ⟨cost, rfl⟩ rfl hflags hmemory⟩

end Machine

end Retrocore.Lr35902
