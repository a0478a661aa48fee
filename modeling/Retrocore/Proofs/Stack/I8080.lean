import Retrocore.Proofs.Calls
import Retrocore.Proofs.Disassembly.Locality
import Retrocore.Proofs.Faults.I8080
import Retrocore.Proofs.Operations
import Retrocore.Proofs.Stack.Words

/-!
# The stack of the 8080

PUSH, taken calls, restarts and interrupts that supply a restart all begin in the same way: a word
is pushed, and nothing else changes but the program counter (`Pushed`). What comes next finds this
word on top, and the stack as it was beneath (`pop_of_follows`). So it only remains to say that a
pair which is given the value that it has stays as it is, the flags among them: `push_pop_balanced`
and `enter_return_balanced`.
-/

namespace Retrocore.I8080

/-- A restart has no operands. -/
theorem operands_of_rst {opcode : Byte} {s : Stream Byte} {n : Nat}
    (h : (decodeOpcode opcode s).1 = .rst n) : (decodeOpcode opcode s).2 = 0 := by
  generalize hd : decodeOpcode opcode s = decoded at h ⊢
  unfold decodeOpcode at hd
  dsimp only at hd
  repeat' split at hd
  all_goals
    subst hd
    first
    | rfl
    | cases h

namespace Machine

variable {μ δ : Type} {m : Machine μ δ}

/-! ## Pairs -/

theorem setStackPair_stackPair (m : Machine μ δ) (p : StackPair) :
    m.setStackPair p (m.stackPair p) = m := by
  cases p <;>
    simp only [setStackPair, setPair, stackPair, Registers.bc, Registers.de, Registers.hl,
      highByte_wordOf, lowByte_wordOf, Flags.ofByte_toByte]

/-- A pair has nothing to do with the program counter. -/
theorem stackPair_congr {n : Machine μ δ} {pc : Word} (hregs : n.regs = { m.regs with pc })
    (hflags : n.flags = m.flags) (p : StackPair) : n.stackPair p = m.stackPair p := by
  cases p <;>
    simp only [stackPair, Registers.bc, Registers.de, Registers.hl, hregs, hflags]

/-- Only a processor that is awake runs an instruction. -/
theorem halted_of_run (h : m.action = .run) : m.halted = false := by
  unfold action at h
  split at h
  next => cases h
  next =>
    split at h
    next => cases h
    next hawake => exact Bool.eq_false_iff.mpr hawake

/-- A processor that is awake runs what stands at the program counter, unless it services a
request. -/
theorem action_of_quiet (hawake : m.halted = false)
    (hquiet : ∀ opcode, m.action ≠ .service opcode) : m.action = .run := by
  unfold action at hquiet ⊢
  split at hquiet
  next opcode _ _ => exact absurd rfl (hquiet opcode)
  next => rw [hawake, if_neg Bool.false_ne_true]

variable [Mapper μ Byte] [Observer δ Byte Byte]

/-! ## What is pushed is on top -/

/-- A word has been pushed. -/
structure Pushed (m : Machine μ δ) (v : Word) (first : Ran (Machine μ δ)) : Prop where
  result : ∃ cost, first.result = .ok cost
  regs : first.state.regs = { m.regs with sp := m.regs.sp - 2, pc := first.state.regs.pc }
  flags : first.state.flags = m.flags
  memory : first.state.memory = m.memory.writeWord (m.regs.sp - 2) v
  awake : first.state.halted = false

/-- The stack is what it was, and so are the registers and flags, but for the program counter. -/
structure Balanced (m : Machine μ δ) (pc : Word) (first second : Ran (Machine μ δ)) : Prop where
  first_ok : ∃ cost, first.result = .ok cost
  second_ok : ∃ cost, second.result = .ok cost
  regs : second.state.regs = { m.regs with pc }
  flags : second.state.flags = m.flags
  memory : ∀ a, OffStack m.regs.sp a → second.state.memory.value a = m.memory.value a

/-- An instruction stands where the next step goes, in cells that are off the stack. Requests may
come before it is run, but none is serviced. -/
structure Follows (m : Machine μ δ) (requests : List Call) (d : Decoded Instruction) : Prop where
  stands : decode (m.memory.stream m.step.state.regs.pc) = d
  off : ∀ j < d.length, OffStack m.regs.sp (m.step.state.regs.pc + UInt16.ofNat j)
  latched : ∀ c ∈ requests, c.isStep = false
  quiet : ∀ opcode, (Core.after m.step.state requests).action ≠ .service opcode

/-- Requests are latched and nothing else. -/
theorem after_requests {requests : List Call} (h : ∀ c ∈ requests, c.isStep = false) :
    ∃ pending, Core.after m requests = { m with pending } := by
  induction requests generalizing m with
  | nil => exact ⟨m.pending, rfl⟩
  | cons c cs ih =>
    obtain ⟨hfirst, hrest⟩ := List.forall_mem_cons.mp h
    cases c with
    | step => cases hfirst
    | interrupt byte =>
      obtain ⟨pending, hafter⟩ := ih (m := m.interrupt byte) hrest
      exact ⟨pending, hafter⟩

omit [Observer δ Byte Byte] in
/-- A word that has been pushed is found by the next POP, which puts the stack pointer
back. -/
theorem pop_of_pushed (hplain : m.memory.Plain) {t : Machine μ δ} {v pc : Word}
    (hregs : t.regs = { m.regs with sp := m.regs.sp - 2, pc })
    (hmemory : t.memory = m.memory.writeWord (m.regs.sp - 2) v) :
    t.pop = (v, { t with regs := { m.regs with pc } }) := by
  have hword : t.memory.readWord t.regs.sp = (v, t.memory) := by
    rw [hmemory, hregs]
    exact hplain.readWord_writeWord _ v
  unfold pop readWord
  rw [hword]
  simp only [hregs, UInt16.sub_add_cancel]

/-- The instruction that follows finds the word on top of the stack. -/
theorem pop_of_follows (hplain : m.memory.Plain) {v : Word} (hpushed : m.Pushed v m.step)
    {requests : List Call} {d : Decoded Instruction} (hfollows : m.Follows requests d) :
    ∃ t : Machine μ δ, (Core.after m.step.state requests).step = t.execute d.instruction ∧
      t.pop = (v, { t with regs := { m.regs with pc := t.regs.pc } }) ∧
      t.flags = m.flags ∧ t.memory = m.memory.writeWord (m.regs.sp - 2) v := by
  obtain ⟨-, hregs, hflags, hmemory, hawake⟩ := hpushed
  obtain ⟨pending, hafter⟩ := after_requests (m := m.step.state) hfollows.latched
  have hquiet := hfollows.quiet
  rw [hafter] at hquiet ⊢
  have hrun := action_of_quiet (m := { m.step.state with pending }) hawake hquiet
  have hstands : decode (m.step.state.memory.stream m.step.state.regs.pc) = d := by
    have hoff := hfollows.off
    rw [← hfollows.stands] at hoff ⊢
    rw [hmemory]
    exact decode_of_agree (hplain.stream_pushed hoff v)
  have hwritten : m.step.state.memory.Plain := hmemory ▸ hplain.writeWord _ _
  have hstep := step_of_fetched hrun hstands
  rw [advance_of_quiet (m := { m.step.state with pending }) hwritten.quiet] at hstep
  have hregs' : ∀ pc, { m.step.state.regs with pc } = { m.regs with sp := m.regs.sp - 2, pc } := by
    intro pc
    rw [hregs]
  exact ⟨_, hstep, pop_of_pushed hplain (hregs' _) hmemory, hflags, hmemory⟩

/-- Two steps that push a word and take it off again balance, if the second changes
nothing else. -/
theorem Pushed.balanced (hplain : m.memory.Plain) {v pc : Word} (hpushed : m.Pushed v m.step)
    {second : Ran (Machine μ δ)} (hok : ∃ cost, second.result = .ok cost)
    (hregs : second.state.regs = { m.regs with pc }) (hflags : second.state.flags = m.flags)
    (hmemory : second.state.memory = m.memory.writeWord (m.regs.sp - 2) v) :
    m.Balanced pc m.step second where
  first_ok := hpushed.result
  second_ok := hok
  regs := hregs
  flags := hflags
  memory a ha := by
    rw [hmemory]
    exact hplain.value_pushed ha v

/-! ## PUSH and POP -/

omit [Observer δ Byte Byte] in
/-- What an instruction finds is the machine as it was, but for the latches and the program
counter. -/
theorem begun_of_executed (hquiet : m.memory.Quiet) {i : Instruction}
    (h : m.executed? = some i) :
    (∃ pc, m.begun.regs = { m.regs with pc }) ∧ m.begun.flags = m.flags ∧
      m.begun.memory = m.memory ∧ m.begun.halted = false := by
  unfold executed? at h
  unfold begun
  cases haction : m.action with
  | service opcode => exact ⟨⟨_, rfl⟩, rfl, hquiet.afterReads _ _, rfl⟩
  | idle =>
    rw [haction] at h
    cases h
  | run => exact ⟨⟨_, rfl⟩, rfl, hquiet.afterReads _ _, halted_of_run haction⟩

/-- PUSH pushes the pair that it names. -/
theorem pushed_of_push (hquiet : m.memory.Quiet) {p : StackPair}
    (h : m.executed? = some (.push p)) : m.Pushed (m.stackPair p) m.step := by
  obtain ⟨⟨pc, hregs⟩, hflags, hmemory, hawake⟩ := begun_of_executed hquiet h
  rw [step_of_executed h]
  exact {
    result := ⟨11, rfl⟩
    regs := by simp only [execute, push, hregs]
    flags := hflags
    memory := by
      simp only [execute, push, hregs, hmemory]
      rw [stackPair_congr hregs hflags]
    awake := hawake }

/-- **PUSH and POP of a pair change nothing.** -/
theorem push_pop_balanced (hplain : m.memory.Plain) {p : StackPair}
    (hpush : m.executed? = some (.push p)) {requests : List Call} {d : Decoded Instruction}
    (hfollows : m.Follows requests d) (hpop : d.instruction = .pop p) :
    ∃ pc, m.Balanced pc m.step (Core.after m.step.state requests).step := by
  have hpushed := pushed_of_push hplain.quiet hpush
  obtain ⟨t, hstep, htop, hflags, hmemory⟩ := pop_of_follows hplain hpushed hfollows
  rw [hpop] at hstep
  let u : Machine μ δ := { t with regs := { m.regs with pc := t.regs.pc } }
  have hsame : u.setStackPair p (m.stackPair p) = u := by
    have hpair : u.stackPair p = m.stackPair p := stackPair_congr (n := u) rfl hflags p
    rw [← hpair]
    exact u.setStackPair_stackPair p
  have hresult : t.execute (.pop p) = ⟨u, .ok 10⟩ := by
    simp only [execute, htop]
    exact congrArg (Ran.mk · (.ok 10)) hsame
  rw [hstep, hresult]
  exact ⟨t.regs.pc, hpushed.balanced hplain ⟨10, rfl⟩ rfl hflags hmemory⟩

/-! ## Calls and returns -/

/-- The next step goes to `target` and pushes `back`: it runs a call that is taken or a restart, or
it services a request that supplies a restart. -/
inductive Enters (m : Machine μ δ) : Word → Word → Prop
  | call {when? : Option Condition} {target : Word} (haction : m.action = .run)
    (hcall : m.fetched.instruction = .call when? target)
    (htaken : when?.all m.flags.satisfy = true) :
    Enters m target (m.regs.pc + UInt16.ofNat m.fetched.length)
  | rst {n : Nat} (haction : m.action = .run) (hrst : m.fetched.instruction = .rst n) :
    Enters m (UInt16.ofNat (8 * n)) (m.regs.pc + UInt16.ofNat m.fetched.length)
  | supplied {opcode : Byte} {n : Nat} (haction : m.action = .service opcode)
    (hrst : (decodeOpcode opcode (m.memory.stream m.regs.pc)).1 = .rst n) :
    Enters m (UInt16.ofNat (8 * n)) m.regs.pc

omit [Observer δ Byte Byte] in
/-- A call pushes where it comes from. -/
theorem pushed_callTo {n : Machine μ δ} {pc target : Word} {cost : Nat}
    (hregs : n.regs = { m.regs with pc }) (hflags : n.flags = m.flags)
    (hmemory : n.memory = m.memory) (hawake : n.halted = false) :
    m.Pushed pc ⟨n.callTo target, .ok cost⟩ where
  result := ⟨cost, rfl⟩
  regs := by simp only [callTo, push, jump, hregs]
  flags := hflags
  memory := by simp only [callTo, push, jump, hregs, hmemory]
  awake := hawake

/-- So an entry pushes the address to come back to, whoever has caused it. -/
theorem pushed_of_enters (hquiet : m.memory.Quiet) {target back : Word}
    (h : m.Enters target back) : m.Pushed back m.step ∧ m.step.state.regs.pc = target := by
  cases h with
  | @call when? _ haction hcall htaken =>
    obtain ⟨cost, hstep⟩ : ∃ cost, m.step =
        ⟨(m.jump (m.regs.pc + UInt16.ofNat m.fetched.length)).callTo target, .ok cost⟩ := by
      rw [step_of_fetched haction rfl, advance_of_quiet hquiet, hcall]
      cases when? with
      | none => exact ⟨17, rfl⟩
      | some cc =>
        have hcc : m.flags.satisfy cc = true := htaken
        exact ⟨17, if_pos hcc⟩
    rw [hstep]
    exact ⟨pushed_callTo rfl rfl rfl (halted_of_run haction), rfl⟩
  | @rst n haction hrst =>
    rw [step_of_fetched haction rfl, advance_of_quiet hquiet, hrst]
    exact ⟨pushed_callTo rfl rfl rfl (halted_of_run haction), rfl⟩
  | @supplied opcode n haction hrst =>
    have hpc : m.regs.pc + UInt16.ofNat 0 = m.regs.pc := UInt16.add_zero _
    rw [step_of_service haction]
    unfold service
    simp only [operands_of_rst hrst, hrst]
    exact ⟨pushed_callTo (congrArg (fun pc => { m.regs with pc }) hpc) rfl rfl rfl, rfl⟩

/-- **What is called comes back.** -/
theorem enter_return_balanced (hplain : m.memory.Plain) {target back : Word}
    (henters : m.Enters target back) {requests : List Call} {d : Decoded Instruction}
    (hfollows : m.Follows requests d) (hreturn : d.instruction = .ret none) :
    m.step.state.regs.pc = target ∧
    m.Balanced back m.step (Core.after m.step.state requests).step := by
  obtain ⟨hpushed, htarget⟩ := pushed_of_enters hplain.quiet henters
  obtain ⟨t, hstep, htop, hflags, hmemory⟩ := pop_of_follows hplain hpushed hfollows
  rw [hreturn] at hstep
  have hresult : t.execute (.ret none) =
      ⟨{ t with regs := { m.regs with pc := back } }, .ok 10⟩ := by
    simp only [execute, goBack, htop, jump]
  rw [hstep, hresult]
  exact ⟨htarget, hpushed.balanced hplain ⟨10, rfl⟩ rfl hflags hmemory⟩

end Machine

end Retrocore.I8080
