import Retrocore.Proofs.Stack.I8080
import Retrocore.Proofs.Stack.Lr35902
import Retrocore.Proofs.Stack.Z80

/-!
# Round trips over the stack

PUSH and POP of a pair, and a call or an interrupt with a return right behind it, leave the
registers, the flags and the stack pointer of all three processors as they were, whatever the state
they start from, and touch two cells of the memory at most. After a return the program counter is
where it was when the interrupt was taken, or behind the call.
-/

namespace Retrocore

/-- **The stack gives back what it was given.** On the 8080, the Z80 and the LR35902. -/
theorem stack_round_trips :
    (∀ (μ δ : Type) [Mapper μ Byte] [Observer δ Byte Byte] (m : I8080.Machine μ δ)
        (requests : List Call) (d : Decoded I8080.Instruction),
      m.memory.Plain → m.Follows requests d →
      (∀ p, m.executed? = some (.push p) → d.instruction = .pop p →
        ∃ pc, m.Balanced pc m.step (Core.after m.step.state requests).step) ∧
      (∀ target back, m.Enters target back → d.instruction = .ret none →
        m.step.state.regs.pc = target ∧
        m.Balanced back m.step (Core.after m.step.state requests).step)) ∧
    (∀ (μ δ : Type) [Mapper μ Byte] [Observer δ Byte Byte] (m : Z80.Machine μ δ)
        (requests : List Z80.Signal) (d : Decoded Z80.Instruction),
      m.memory.Plain → m.Follows requests d →
      (∀ p, m.executed? = some (.push p) → d.instruction = .pop p →
        ∃ pc, m.Balanced pc m.step (Operable.after m.step.state requests).step) ∧
      (∀ target back, m.Enters target back → d.instruction.isReturn = true →
        m.step.state.regs.pc = target ∧
        m.Balanced back m.step (Operable.after m.step.state requests).step)) ∧
    (∀ (μ : Type) [Mapper μ Byte] (m : Lr35902.Machine μ)
        (requests : List Call) (d : Decoded Lr35902.Instruction),
      m.memory.Plain → m.Follows requests d →
      (∀ p, m.running? = some (.push p) → d.instruction = .pop p →
        ∃ pc, m.Balanced pc m.step (Core.after m.step.state requests).step) ∧
      (∀ target back, m.Enters target back → d.instruction.isReturn = true →
        m.step.state.regs.pc = target ∧
        m.Balanced back m.step (Core.after m.step.state requests).step)) := by
  refine ⟨?_, ?_, ?_⟩
  · intro μ δ _ _ m requests d hplain hfollows
    exact ⟨fun p hpush hpop => I8080.Machine.push_pop_balanced hplain hpush hfollows hpop,
      fun target back henters hreturn =>
        I8080.Machine.enter_return_balanced hplain henters hfollows hreturn⟩
  · intro μ δ _ _ m requests d hplain hfollows
    exact ⟨fun p hpush hpop => Z80.Machine.push_pop_balanced hplain hpush hfollows hpop,
      fun target back henters hreturn =>
        Z80.Machine.enter_return_balanced hplain henters hfollows hreturn⟩
  · intro μ _ m requests d hplain hfollows
    exact ⟨fun p hpush hpop => Lr35902.Machine.push_pop_balanced hplain hpush hfollows hpop,
      fun target back henters hreturn =>
        Lr35902.Machine.enter_return_balanced hplain henters hfollows hreturn⟩

/-! ## A program for all three processors -/

/-- What stands in a memory with PUSH and POP of the accumulator and flags at 2 and a return at
0x38. -/
def pushPopCell (a : Word) : Byte :=
  if 0x38 = a then 0xc9 else if 3 = a then 0xf1 else if 2 = a then 0xf5 else 0

def pushPop : Memory Empty Byte :=
  (((Memory.zeros 65536).write 2 0xf5).write 3 0xf1).write 0x38 0xc9

/-- The cells are there for every address and have no mapper before them. -/
theorem plain_pushPop : pushPop.Plain :=
  ((Memory.plain_zeros.write 2 0xf5).write 3 0xf1).write 0x38 0xc9

/-- What is fetched from an address on is told cell by cell. -/
theorem stream_pushPop (pc : Word) :
    pushPop.stream pc = fun i => pushPopCell (pc + UInt16.ofNat i) := by
  have hzeros : (Memory.zeros 65536 : Memory Empty Byte).Plain := Memory.plain_zeros
  funext i
  rw [plain_pushPop.quiet.stream]
  unfold pushPop
  rw [((hzeros.write 2 0xf5).write 3 0xf1).value_write, (hzeros.write 2 0xf5).value_write,
    hzeros.value_write, Memory.value_zeros]
  rfl

/-- An 8080 before the PUSH, with the stack pointer at 1. -/
def pushing8080 (memory : Memory Empty Byte) (pending : Option Byte) :
    I8080.Machine Empty (Recorder Byte Byte) :=
  { I8080.Machine.new memory 2 with
    regs := { a := 0x12, sp := 1, pc := 2 }
    flags := .ofByte 0xd5
    inte := true
    pending }

/-- A Z80 before the PUSH, in interrupt mode one. -/
def pushingZ80 (memory : Memory Empty Byte) (pending : Option Byte) :
    Z80.Machine Empty (Recorder Byte Byte) :=
  { Z80.Machine.new memory 2 with
    regs := { a := 0x12, sp := 1, pc := 2 }
    flags := .ofByte 0xd5
    iff1 := true
    mode := .one
    pending }

/-- An LR35902 before the PUSH. -/
def pushingLr35902 (memory : Memory Empty Byte) (pending : Option Byte) :
    Lr35902.Machine Empty :=
  { Lr35902.Machine.new memory with
    regs := { a := 0x12, sp := 1, pc := 2 }
    flags := .ofByte 0xd5
    ime := true
    pending }

/-- A word pushed at the top of the address space leaves the POP at 3 alone. -/
theorem offStack_pop : ∀ j < 1, OffStack 1 (3 + UInt16.ofNat j) := by
  decide

/-- So it does with the return of the handler at 0x38. -/
theorem offStack_ret : ∀ j < 1, OffStack 1 (0x38 + UInt16.ofNat j) := by
  decide

section

variable {memory : Memory Empty Byte}
  (hstream : ∀ pc, memory.stream pc = fun i => pushPopCell (pc + UInt16.ofNat i))
include hstream

/-- Without a request the 8080 pushes the word, and a POP follows. -/
theorem push_pushing8080 : (pushing8080 memory none).executed? = some (.push .psw) ∧
    (pushing8080 memory none).Follows [] (.root 0xf1 (.pop .psw) 0) := by
  have hpush : I8080.decode (memory.stream 2) = .root 0xf5 (.push .psw) 0 := by
    rw [hstream]
    rfl
  have hpop : I8080.decode (memory.stream 3) = .root 0xf1 (.pop .psw) 0 := by
    rw [hstream]
    rfl
  have hstep := I8080.Machine.step_of_fetched (m := pushing8080 memory none) rfl hpush
  have hpc : (pushing8080 memory none).step.state.regs.pc = 3 := by
    rw [hstep]
    rfl
  have hrun : (pushing8080 memory none).step.state.action = .run := by
    rw [hstep]
    rfl
  refine ⟨congrArg (fun d => some (Decoded.instruction d)) hpush, ?_⟩
  constructor
  · rw [hpc]
    exact hpop
  · rw [hpc]
    exact offStack_pop
  · decide
  · intro opcode hservice
    cases hrun.symm.trans hservice

/-- With one it calls the handler instead, which returns. -/
theorem enters_pushing8080 : (pushing8080 memory (some 0xff)).Enters 0x38 2 ∧
    (pushing8080 memory (some 0xff)).Follows [] (.root 0xc9 (.ret none) 0) := by
  have hret : I8080.decode (memory.stream 0x38) = .root 0xc9 (.ret none) 0 := by
    rw [hstream]
    rfl
  have haction : (pushing8080 memory (some 0xff)).action = .service 0xff := rfl
  have hrst : (I8080.decodeOpcode 0xff (memory.stream 2)).1 = .rst 7 := rfl
  refine ⟨.supplied haction hrst, ?_⟩
  constructor
  · exact hret
  · exact offStack_ret
  · decide
  · intro opcode hservice
    cases hservice

/-- The Z80 pushes the word, and a POP follows. -/
theorem push_pushingZ80 : (pushingZ80 memory none).executed? = some (.push .af) ∧
    (pushingZ80 memory none).Follows [] (.root 0xf1 (.pop .af) 0) := by
  have hpush : Z80.decode (memory.stream 2) = .ok (.root 0xf5 (.push .af) 0) := by
    rw [hstream]
    rfl
  have hpop : Z80.decode (memory.stream 3) = .ok (.root 0xf1 (.pop .af) 0) := by
    rw [hstream]
    rfl
  have hstep := Z80.Machine.step_of_fetched (m := pushingZ80 memory none) rfl hpush
  have hpc : (pushingZ80 memory none).step.state.regs.pc = 3 := by
    rw [hstep]
    rfl
  have hrun : (pushingZ80 memory none).step.state.action = .run := by
    rw [hstep]
    rfl
  refine ⟨congrArg Z80.Machine.instruction? hpush, ?_⟩
  constructor
  · rw [hpc]
    exact hpop
  · rw [hpc]
    exact offStack_pop
  · decide
  · intro hnmi
    cases hrun.symm.trans hnmi
  · intro byte hservice
    cases hrun.symm.trans hservice

/-- With a request in mode one it calls the handler. -/
theorem enters_pushingZ80 : (pushingZ80 memory (some 0xff)).Enters 0x38 2 ∧
    (pushingZ80 memory (some 0xff)).Follows [] (.root 0xc9 (.ret none) 0) := by
  have hret : Z80.decode (memory.stream 0x38) = .ok (.root 0xc9 (.ret none) 0) := by
    rw [hstream]
    rfl
  have haction : (pushingZ80 memory (some 0xff)).action = .service 0xff := rfl
  have hstep := Z80.Machine.step_of_modeOne haction rfl
  have hrun : (pushingZ80 memory (some 0xff)).step.state.action = .run := by
    rw [hstep]
    rfl
  have hpc : (pushingZ80 memory (some 0xff)).step.state.regs.pc = 0x38 := by
    rw [hstep]
    rfl
  refine ⟨.modeOne haction rfl, ?_⟩
  constructor
  · rw [hpc]
    exact hret
  · rw [hpc]
    exact offStack_ret
  · decide
  · intro hnmi
    cases hrun.symm.trans hnmi
  · intro byte hservice
    cases hrun.symm.trans hservice

/-- The LR35902 pushes the word, and a POP follows. -/
theorem push_pushingLr35902 : (pushingLr35902 memory none).running? = some (.push .af) ∧
    (pushingLr35902 memory none).Follows [] (.root 0xf1 (.pop .af) 0) := by
  have hpush : Lr35902.decode (memory.stream 2) = .ok (.root 0xf5 (.push .af) 0) := by
    rw [hstream]
    rfl
  have hpop : Lr35902.decode (memory.stream 3) = .ok (.root 0xf1 (.pop .af) 0) := by
    rw [hstream]
    rfl
  have hstep := Lr35902.Machine.step_of_fetched (m := pushingLr35902 memory none) rfl hpush
  have hpc : (pushingLr35902 memory none).step.state.regs.pc = 3 := by
    rw [hstep]
    rfl
  have hrun : (pushingLr35902 memory none).step.state.action = .run := by
    rw [hstep]
    rfl
  refine ⟨Lr35902.Machine.running?_eq_some_iff.mpr ⟨rfl, _, hpush, rfl⟩, ?_⟩
  constructor
  · rw [hpc]
    exact hpop
  · rw [hpc]
    exact offStack_pop
  · decide
  · intro vector hservice
    cases hrun.symm.trans hservice

/-- With a request it calls the handler at the vector. -/
theorem enters_pushingLr35902 : (pushingLr35902 memory (some 0x38)).Enters 0x38 2 ∧
    (pushingLr35902 memory (some 0x38)).Follows [] (.root 0xc9 (.ret none) 0) := by
  have hret : Lr35902.decode (memory.stream 0x38) = .ok (.root 0xc9 (.ret none) 0) := by
    rw [hstream]
    rfl
  have haction : (pushingLr35902 memory (some 0x38)).action = .service 0x38 := rfl
  refine ⟨.service haction, ?_⟩
  constructor
  · exact hret
  · exact offStack_ret
  · decide
  · intro vector hservice
    cases hservice

end

/-- On all three processors the pair goes to the last cell of the memory and the first, and comes
back from there; and so does the program counter when an interrupt comes before the PUSH. -/
theorem stack_round_trips_around_zero :
    (∃ pc, (pushing8080 pushPop none).Balanced pc (pushing8080 pushPop none).step
      (Core.after (pushing8080 pushPop none).step.state []).step) ∧
    (pushing8080 pushPop (some 0xff)).Balanced 2 (pushing8080 pushPop (some 0xff)).step
      (Core.after (pushing8080 pushPop (some 0xff)).step.state []).step ∧
    (∃ pc, (pushingZ80 pushPop none).Balanced pc (pushingZ80 pushPop none).step
      (Operable.after (pushingZ80 pushPop none).step.state ([] : List Z80.Signal)).step) ∧
    (pushingZ80 pushPop (some 0xff)).Balanced 2 (pushingZ80 pushPop (some 0xff)).step
      (Operable.after (pushingZ80 pushPop (some 0xff)).step.state ([] : List Z80.Signal)).step ∧
    (∃ pc, (pushingLr35902 pushPop none).Balanced pc (pushingLr35902 pushPop none).step
      (Core.after (pushingLr35902 pushPop none).step.state []).step) ∧
    (pushingLr35902 pushPop (some 0x38)).Balanced 2 (pushingLr35902 pushPop (some 0x38)).step
      (Core.after (pushingLr35902 pushPop (some 0x38)).step.state []).step := by
  obtain ⟨h8080, hZ80, hLr35902⟩ := stack_round_trips
  -- the streams are all that matters of the memory
  have hplain := plain_pushPop
  have hstream := stream_pushPop
  generalize pushPop = memory at hplain hstream ⊢
  refine ⟨?_, ?_, ?_, ?_, ?_, ?_⟩
  · obtain ⟨hpush, hfollows⟩ := push_pushing8080 hstream
    exact (h8080 _ _ (pushing8080 memory none) [] _ hplain hfollows).1 .psw hpush rfl
  · obtain ⟨henters, hfollows⟩ := enters_pushing8080 hstream
    exact ((h8080 _ _ (pushing8080 memory (some 0xff)) [] _ hplain hfollows).2 _ _ henters rfl).2
  · obtain ⟨hpush, hfollows⟩ := push_pushingZ80 hstream
    exact (hZ80 _ _ (pushingZ80 memory none) [] _ hplain hfollows).1 .af hpush rfl
  · obtain ⟨henters, hfollows⟩ := enters_pushingZ80 hstream
    exact ((hZ80 _ _ (pushingZ80 memory (some 0xff)) [] _ hplain hfollows).2 _ _ henters rfl).2
  · obtain ⟨hpush, hfollows⟩ := push_pushingLr35902 hstream
    exact (hLr35902 _ (pushingLr35902 memory none) [] _ hplain hfollows).1 .af hpush rfl
  · obtain ⟨henters, hfollows⟩ := enters_pushingLr35902 hstream
    exact ((hLr35902 _ (pushingLr35902 memory (some 0x38)) [] _ hplain hfollows).2 _ _ henters
      rfl).2

end Retrocore
