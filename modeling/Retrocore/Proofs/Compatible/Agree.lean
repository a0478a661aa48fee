import Retrocore.Proofs.Calls
import Retrocore.Proofs.Compatible.Translate
import Retrocore.Proofs.Frames.I8080
import Retrocore.Proofs.Frames.Z80

/-!
# Corresponding states of the 8080 and the Z80

`Agree m z` says that an 8080 and a Z80 are in the same state as far as programs
made of common instructions can tell: the registers that both have, three flags
out of five and eight, the halt and interrupt latches, an unmapped memory and
the ports with whatever observes them. It leaves out what only one of them has,
and holds the Z80 to interrupt mode zero, the 8080's own.

The second half goes through the elementary moves of both machines. Each keeps
the agreement when both make it with the same operands.
-/

namespace Retrocore.Compatible

variable {μ δ : Type}

/-- The flags that both processors set alike. Parity and the half carry differ
after arithmetic. -/
structure FlagsAgree (f : I8080.Flags) (g : Z80.Flags) : Prop where
  sign : f.sign = g.sign
  zero : f.zero = g.zero
  carry : f.carry = g.carry

structure RegistersAgree (r : I8080.Registers) (s : Z80.Registers) : Prop where
  a : r.a = s.a
  b : r.b = s.b
  c : r.c = s.c
  d : r.d = s.d
  e : r.e = s.e
  h : r.h = s.h
  l : r.l = s.l
  sp : r.sp = s.sp
  pc : r.pc = s.pc

/-- The two machines are in corresponding states. -/
structure Agree (m : I8080.Machine μ δ) (z : Z80.Machine μ δ) : Prop where
  regs : RegistersAgree m.regs z.regs
  flags : FlagsAgree m.flags z.flags
  halted : m.halted = z.halted
  pending : m.pending = z.pending
  enabled : m.inte = z.iff1
  memory : m.memory = z.memory
  unmapped : m.memory.mapper = none
  ports : m.ports = z.ports
  mode : z.mode = .zero
  noNmi : z.nmiPending = false

/-- The Z80 in the state that corresponds to one of the 8080, everything of its
own at rest. -/
def twin (m : I8080.Machine μ δ) : Z80.Machine μ δ where
  regs :=
    { a := m.regs.a, b := m.regs.b, c := m.regs.c, d := m.regs.d, e := m.regs.e,
      h := m.regs.h, l := m.regs.l, sp := m.regs.sp, pc := m.regs.pc }
  flags := { sign := m.flags.sign, zero := m.flags.zero, carry := m.flags.carry }
  iff1 := m.inte
  iff2 := m.inte
  mode := .zero
  halted := m.halted
  stopped := m.stopped
  pending := m.pending
  nmiPending := false
  initialPc := m.initialPc
  ports := m.ports
  memory := m.memory

/-- Every 8080 with an unmapped memory corresponds to some Z80. -/
theorem agree_twin {m : I8080.Machine μ δ} (h : m.memory.mapper = none) :
    Agree m (twin m) where
  regs := ⟨rfl, rfl, rfl, rfl, rfl, rfl, rfl, rfl, rfl⟩
  flags := ⟨rfl, rfl, rfl⟩
  halted := rfl
  pending := rfl
  enabled := rfl
  memory := rfl
  unmapped := h
  ports := rfl
  mode := rfl
  noNmi := rfl

/-- Two steps end in corresponding states, and in the same fault if in any. -/
structure AgreeAfter (r : Ran (I8080.Machine μ δ)) (s : Ran (Z80.Machine μ δ)) :
    Prop where
  states : Agree r.state s.state
  faults : r.fault? = s.fault?

/-! ## Flags -/

namespace FlagsAgree

variable {f : I8080.Flags} {g : Z80.Flags}

/-- The eight accumulator operations have the same result and flags. -/
theorem alu (h : FlagsAgree f g) (op : AluOp) (a v : Byte) :
    (f.alu op a v).1 = (g.alu op a v).1 ∧
      FlagsAgree (f.alu op a v).2 (g.alu op a v).2 := by
  obtain ⟨_, _, hcarry⟩ := h
  -- only the operations with carry look at the flags
  cases op with
  | add => exact ⟨rfl, rfl, rfl, rfl⟩
  | adc =>
    simp only [I8080.Flags.alu, Z80.Flags.alu, hcarry]
    exact ⟨rfl, rfl, rfl, rfl⟩
  | sub => exact ⟨rfl, rfl, rfl, rfl⟩
  | sbc =>
    simp only [I8080.Flags.alu, Z80.Flags.alu, hcarry]
    exact ⟨rfl, rfl, rfl, rfl⟩
  | and => exact ⟨rfl, rfl, rfl, rfl⟩
  | xor => exact ⟨rfl, rfl, rfl, rfl⟩
  | or => exact ⟨rfl, rfl, rfl, rfl⟩
  | cp => exact ⟨rfl, rfl, rfl, rfl⟩

/-- Counting leaves both carries as they were. -/
theorem inc (h : FlagsAgree f g) (v : Byte) : FlagsAgree (f.inc v).2 (g.inc8 v).2 :=
  ⟨rfl, rfl, h.carry⟩

/-- Counting down sets S and Z alike, and leaves the carry. -/
theorem dec (h : FlagsAgree f g) (v : Byte) : FlagsAgree (f.dec v).2 (g.dec8 v).2 :=
  ⟨rfl, rfl, h.carry⟩

/-- A condition on sign, zero or carry is judged alike. -/
theorem satisfy (h : FlagsAgree f g) {cc : Condition}
    (hcc : SameCondition (some cc)) :
    f.satisfy cc = g.satisfy cc := by
  cases cc with
  | nz => exact congrArg (!·) h.zero
  | z => exact h.zero
  | nc => exact congrArg (!·) h.carry
  | c => exact h.carry
  | po => exact absurd rfl hcc.1
  | pe => exact absurd rfl hcc.2
  | p => exact congrArg (!·) h.sign
  | m => exact h.sign

end FlagsAgree

/-! ## Registers -/

namespace RegistersAgree

variable {r : I8080.Registers} {s : Z80.Registers}

/-- The halves of BC are the same, so BC is. -/
theorem bc (h : RegistersAgree r s) : r.bc = s.bc := by
  unfold I8080.Registers.bc Z80.Registers.bc
  rw [h.b, h.c]

theorem de (h : RegistersAgree r s) : r.de = s.de := by
  unfold I8080.Registers.de Z80.Registers.de
  rw [h.d, h.e]

theorem hl (h : RegistersAgree r s) : r.hl = s.hl := by
  unfold I8080.Registers.hl Z80.Registers.hl
  rw [h.h, h.l]

end RegistersAgree

/-! ## Moves -/

/-- A write to an unmapped memory attaches no mapper. -/
theorem write_unmapped [Mapper μ Byte] {memory : Memory μ Byte}
    (h : memory.mapper = none)
    (address : Word) (v : Byte) : (memory.write address v).mapper = none := by
  obtain ⟨cells, mapper⟩ := memory
  cases h
  rfl

/-- Writing a word does not attach a mapper. -/
theorem writeWord_unmapped [Mapper μ Byte] {memory : Memory μ Byte}
    (h : memory.mapper = none)
    (address v : Word) : (memory.writeWord address v).mapper = none :=
  write_unmapped (write_unmapped h _ _) _ _

namespace Agree

variable {m : I8080.Machine μ δ} {z : Z80.Machine μ δ}

/-- A pair of the 8080 is the one of the same name on the Z80. -/
theorem pair (h : Agree m z) (p : I8080.Pair) : m.pair p = z.pair (pairOf p) := by
  cases p with
  | b => exact h.regs.bc
  | d => exact h.regs.de
  | h => exact h.regs.hl
  | sp => exact h.regs.sp

/-- The same word put into both keeps them in agreement. -/
theorem setPair (h : Agree m z) (p : I8080.Pair) (v : Word) :
    Agree (m.setPair p v) (z.setPair (pairOf p) v) := by
  cases p with
  | b => exact { h with regs := { h.regs with b := rfl, c := rfl } }
  | d => exact { h with regs := { h.regs with d := rfl, e := rfl } }
  | h => exact { h with regs := { h.regs with h := rfl, l := rfl } }
  | sp => exact { h with regs := { h.regs with sp := rfl } }

theorem setA (h : Agree m z) (v : Byte) : Agree (m.setA v) (z.setReg .a v) :=
  { h with regs := { h.regs with a := rfl } }

theorem setFlags (h : Agree m z) {f : I8080.Flags} {g : Z80.Flags}
    (hf : FlagsAgree f g) :
    Agree { m with flags := f } { z with flags := g } :=
  { h with flags := hf }

theorem jump (h : Agree m z) (address : Word) :
    Agree (m.jump address) (z.jump address) :=
  { h with regs := { h.regs with pc := rfl } }

/-- The refresh register is the Z80's own affair. -/
theorem refresh (h : Agree m z) (fetches : Nat) : Agree m (z.refresh fetches) :=
  { h with regs := { h.regs with } }

/-! ### The accumulator -/

/-- An operation on the accumulator finds the same operands. -/
theorem accumulate (h : Agree m z) (op : AluOp) (v : Byte) :
    Agree (m.accumulate op v) (z.accumulate op v) := by
  obtain ⟨hres, hflags⟩ := h.flags.alu op m.regs.a v
  rw [h.regs.a] at hres hflags
  have ha : (m.accumulate op v).regs.a = (z.accumulate op v).regs.a := by
    show (m.flags.alu op m.regs.a v).1 = _
    rw [h.regs.a]
    exact hres
  have hf : FlagsAgree (m.accumulate op v).flags (z.accumulate op v).flags := by
    show FlagsAgree (m.flags.alu op m.regs.a v).2 _
    rw [h.regs.a]
    exact hflags
  exact { h with regs := { h.regs with a := ha }, flags := hf }

theorem rotateA (h : Agree m z) (op : RotateOp) :
    Agree (m.rotateA op) (z.rotateA op) := by
  have hres :
      op.apply m.flags.carry m.regs.a = op.apply z.flags.carry z.regs.a := by
    rw [h.flags.carry, h.regs.a]
  exact { h with
    regs := { h.regs with a := congrArg Prod.fst hres }
    flags := ⟨h.flags.sign, h.flags.zero, congrArg Prod.snd hres⟩ }

/-! ### Memory -/

variable [Mapper μ Byte]

/-- Nothing answers the reads that could make anything of them. -/
theorem quiet (h : Agree m z) : m.memory.Quiet := Memory.quiet_of_unmapped h.unmapped

/-- Without a mapper reads change nothing on either machine. -/
theorem quiet' (h : Agree m z) : z.memory.Quiet := h.memory ▸ h.quiet

/-- The same byte stored to the same cell keeps them in agreement. -/
theorem store (h : Agree m z) (address : Word) (v : Byte) :
    Agree (m.store address v) (z.store address v) :=
  { h with
    memory := congrArg (Memory.write · address v) h.memory
    unmapped := write_unmapped h.unmapped address v }

theorem storeWord (h : Agree m z) (address v : Word) :
    Agree (m.storeWord address v) (z.storeWord address v) :=
  { h with
    memory := congrArg (Memory.writeWord · address v) h.memory
    unmapped := writeWord_unmapped h.unmapped address v }

/-- Both read the same, and neither is changed by it. -/
theorem read (h : Agree m z) (address : Word) :
    ∃ v, m.read address = (v, m) ∧ z.read address = (v, z) := by
  refine ⟨m.memory.value address, m.read_of_quiet h.quiet address, ?_⟩
  rw [h.memory]
  exact z.read_of_quiet h.quiet' address

/-- Both read the same word, and stay as they are. -/
theorem readWord (h : Agree m z) (address : Word) :
    ∃ v, m.readWord address = (v, m) ∧ z.readWord address = (v, z) := by
  refine ⟨_, m.readWord_of_quiet h.quiet address, ?_⟩
  rw [h.memory]
  exact z.readWord_of_quiet h.quiet' address

/-- Both load the same byte, be it from the cell at HL. -/
theorem load (h : Agree m z) (r : I8080.Reg) :
    ∃ v, m.load r = (v, m) ∧ z.load (placeOf r) = (v, z) := by
  cases r with
  | b => exact ⟨m.regs.b, rfl, by rw [h.regs.b]; rfl⟩
  | c => exact ⟨m.regs.c, rfl, by rw [h.regs.c]; rfl⟩
  | d => exact ⟨m.regs.d, rfl, by rw [h.regs.d]; rfl⟩
  | e => exact ⟨m.regs.e, rfl, by rw [h.regs.e]; rfl⟩
  | h => exact ⟨m.regs.h, rfl, by rw [h.regs.h]; rfl⟩
  | l => exact ⟨m.regs.l, rfl, by rw [h.regs.l]; rfl⟩
  | m =>
    obtain ⟨v, hm, hz⟩ := h.read m.regs.hl
    rw [h.regs.hl] at hz
    exact ⟨v, hm, hz⟩
  | a => exact ⟨m.regs.a, rfl, by rw [h.regs.a]; rfl⟩

/-- The same byte put into the same place keeps them in agreement. -/
theorem assign (h : Agree m z) (r : I8080.Reg) (v : Byte) :
    Agree (m.setReg r v) (z.assign (placeOf r) v) := by
  cases r with
  | b => exact { h with regs := { h.regs with b := rfl } }
  | c => exact { h with regs := { h.regs with c := rfl } }
  | d => exact { h with regs := { h.regs with d := rfl } }
  | e => exact { h with regs := { h.regs with e := rfl } }
  | h => exact { h with regs := { h.regs with h := rfl } }
  | l => exact { h with regs := { h.regs with l := rfl } }
  | m =>
    show Agree (m.store m.regs.hl v) (z.store z.regs.hl v)
    rw [h.regs.hl]
    exact h.store _ v
  | a => exact h.setA v

/-! ### The stack -/

/-- PUSH moves both stack pointers and writes the same word. -/
theorem push (h : Agree m z) (v : Word) : Agree (m.push v) (z.push v) := by
  have hword : m.memory.writeWord (m.regs.sp - 2) v =
      z.memory.writeWord (z.regs.sp - 2) v := by
    rw [h.memory, h.regs.sp]
  exact { h with
    regs := { h.regs with sp := congrArg (· - 2) h.regs.sp }
    memory := hword
    unmapped := writeWord_unmapped h.unmapped _ v }

/-- Both pop the same word. -/
theorem pop_word (h : Agree m z) : m.pop.1 = z.pop.1 := by
  obtain ⟨v, hm, hz⟩ := h.readWord m.regs.sp
  rw [h.regs.sp] at hz
  exact (congrArg Prod.fst hm).trans (congrArg Prod.fst hz).symm

theorem pop_rest (h : Agree m z) : Agree m.pop.2 z.pop.2 := by
  rw [I8080.Machine.pop_of_quiet h.quiet, Z80.Machine.pop_of_quiet h.quiet']
  exact { h with regs := { h.regs with sp := congrArg (· + 2) h.regs.sp } }

/-- A call pushes the same return address. -/
theorem callTo (h : Agree m z) (address : Word) :
    Agree (m.callTo address) (z.callTo address) := by
  unfold I8080.Machine.callTo Z80.Machine.callTo
  rw [h.regs.pc]
  exact (h.push _).jump address

/-- A return finds it on both stacks. -/
theorem goBack (h : Agree m z) : Agree m.goBack z.goBack := by
  show Agree (m.pop.2.jump m.pop.1) (z.pop.2.jump z.pop.1)
  rw [h.pop_word]
  exact h.pop_rest.jump _

end Agree

end Retrocore.Compatible
