import Retrocore.Proofs.Frames.Words
import Retrocore.Proofs.Operations

/-!
# Calls and returns nest

A `call` of the Synacor machine leaves its return address on the stack that
programs push and pop their numbers on. No operation reaches below the newest
entry (`StackMove`). So entries that lie deeper than the stack ever gets are
still there at the end of a run, whatever was done above them
(`suffix_after`), and a `ret` at the level of a `call` goes back behind it and
leaves the stack that the `call` found (`returns_behind_call`).
-/

namespace Retrocore.Synacor

open Operable

/-- What an operation may make of a stack. -/
inductive StackMove (stack : List Word) : List Word → Prop
  | kept : StackMove stack stack
  | pushed (v : Word) : StackMove stack (v :: stack)
  | popped : StackMove stack stack.tail
  | cleared : StackMove stack []

/-- Entries survive unless the stack gets shorter than they are. -/
theorem StackMove.suffix {stack stack' base : List Word} (h : StackMove stack stack')
    (hbase : base <:+ stack) (hdeep : base.length ≤ stack'.length) : base <:+ stack' := by
  cases h with
  | kept => exact hbase
  | pushed v => exact hbase.trans (List.suffix_cons v stack)
  | cleared =>
    obtain rfl : base = [] := List.eq_nil_of_length_eq_zero (Nat.le_zero.mp hdeep)
    exact List.nil_suffix
  | popped =>
    cases stack with
    | nil => exact hbase
    | cons v rest =>
      -- were the entry that goes one of them, they would be deeper than the rest
      obtain rfl | hrest := List.suffix_cons_iff.mp hbase
      · exact absurd hdeep (Nat.not_succ_le_self rest.length)
      · exact hrest

namespace Machine

variable {μ δ : Type} [Mapper μ Word] [Observer δ Byte Byte] {m : Machine μ δ}

/-- An instruction moves the stack by one entry at most. -/
theorem stackMove_execute (m : Machine μ δ) (i : Instruction) :
    StackMove m.stack (m.execute i).state.stack := by
  rw [stack_execute]
  cases i with
  | push a => exact .pushed _
  | call target => exact .pushed _
  | pop dst => exact .popped
  | ret => exact .popped
  | _ => exact .kept

/-- A step moves the stack by one entry at most, whether it succeeds or not. -/
theorem stackMove_step (m : Machine μ δ) : StackMove m.stack m.step.state.stack := by
  cases h : m.executed? with
  | some i =>
    rw [step_of_executed? h]
    exact stackMove_execute (m.advance i.length) i
  | none =>
    obtain ⟨_, _, hstep⟩ := step_of_executed?_none h
    rw [hstep]
    exact .kept

/-- So does whatever else is done to the machine. -/
theorem stackMove_perform (m : Machine μ δ) (o : Signal δ) :
    StackMove m.stack (perform m o).stack := by
  cases o with
  | step => exact m.stackMove_step
  | reset => exact .cleared
  | _ => exact .kept

/-- What lies deeper than the stack ever gets is not touched. -/
theorem suffix_after {base : List Word} (run : List (Signal δ)) (hbase : base <:+ m.stack)
    (hdeep : Throughout (fun m' : Machine μ δ => base.length ≤ m'.stack.length) m run) :
    base <:+ (after m run).stack :=
  hdeep.after_keeps
    (fun m o (hm : base <:+ m.stack) _ hnext => (m.stackMove_perform o).suffix hm hnext)
    run m hbase

/-- A call leaves the address behind it on the stack. -/
theorem step_of_call {target : Arg} (h : m.executed? = some (.call target)) :
    m.step.state.stack = (m.pc + 2) :: m.stack := by
  rw [step_of_executed? h, stack_execute]
  rfl

/-- A return goes to the address on top of the stack and takes it off. -/
theorem step_of_ret {address : Word} {stack : List Word} (h : m.executed? = some .ret)
    (hstack : m.stack = address :: stack) :
    m.step.result = .ok 1 ∧ m.step.state.pc = address ∧ m.step.state.stack = stack := by
  have hstack : (m.advance Instruction.ret.length).stack = address :: stack := hstack
  rw [step_of_executed? h]
  simp only [execute, jump, hstack, and_self]

/-- **Calls and returns nest**: while the stack stays deeper than a `call` found
it, a `ret` at the level of its return address goes back behind the `call` and
leaves the very stack that the `call` found. -/
theorem returns_behind_call {target : Arg} (hcall : m.executed? = some (.call target))
    (run : List (Signal δ))
    (hdeeper : Throughout (fun m' : Machine μ δ => m.stack.length < m'.stack.length)
      m.step.state run)
    (hret : (after m.step.state run).executed? = some .ret)
    (hlevel : (after m.step.state run).stack.length = m.stack.length + 1) :
    (after m.step.state run).step.result = .ok 1 ∧
    (after m.step.state run).step.state.pc = m.pc + 2 ∧
    (after m.step.state run).step.state.stack = m.stack := by
  have hcalled : (m.pc + 2) :: m.stack <:+ m.step.state.stack := ⟨[], (step_of_call hcall).symm⟩
  have hstack : (m.pc + 2) :: m.stack = (after m.step.state run).stack :=
    (suffix_after run hcalled hdeeper).eq_of_length hlevel.symm
  exact step_of_ret hret hstack.symm

/-- A routine that pushes a number, fails to pop it into a number, calls a second
routine that writes to the memory and loads from a register that counts how often
it is read, and returns. -/
theorem returns_behind_call_failing :
    let memory : Memory (Tally Word) Word := .attach (.ofList
      [2, 7, 17, 8, 0, 21, 21, 21, 2, 5, 3, 3, 17, 15, 18, 16, 22, 9, 15, 32768, 256, 18, 0])
      ⟨256, 41⟩
    let m : Machine (Tally Word) (Recorder Byte Byte) := (new memory 0).step.state
    let run : List (Signal (Recorder Byte Byte)) := [.step, .step, .step, .step, .step, .step]
    let m' := after m.step.state run
    m.pc = 2 ∧ m.stack = [7] ∧ m'.regs.get 0 = 42 ∧
      m'.step.state.pc = 4 ∧ m'.step.state.stack = [7] := by
  intro memory m run m'
  have hpc : m.pc = 2 := by decide
  have hstack : m.stack = [7] := by decide
  have hcall : m.executed? = some (.call (.lit 8)) := by decide
  have hloaded : m'.regs.get 0 = 42 := by decide +kernel
  have hdeeper : Throughout
      (fun m' : Machine (Tally Word) (Recorder Byte Byte) => m.stack.length < m'.stack.length)
      m.step.state run := by decide +kernel
  have hret : m'.executed? = some .ret := by decide +kernel
  have hlevel : m'.stack.length = m.stack.length + 1 := by decide +kernel
  clear_value m
  obtain ⟨-, hpc', hstack'⟩ := returns_behind_call hcall run hdeeper hret hlevel
  rw [hpc] at hpc'
  rw [hstack] at hstack'
  exact ⟨hpc, hstack, hloaded, hpc', hstack'⟩

end Machine

end Retrocore.Synacor
