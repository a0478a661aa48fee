import Retrocore.I8080.Step
import Retrocore.Z80.Step
import Mathlib.Tactic.IntervalCases

/-!
# The 8080's instructions on the Z80

The Z80 was made to run programs of the 8080. It has other names for the
instructions and a decoder of its own, but most opcodes of the 8080 mean the
same there. This file says which: `translate` takes an instruction of the 8080
to its counterpart, and `decodeRoot_eq` shows that wherever an opcode is
`Common`, the two decoders read counterparts, with the same operands out of the
same cells.

Three kinds of opcodes are left out. Twelve have no documented meaning on the
8080 and were given new meanings or made prefixes on the Z80. PUSH PSW, POP PSW
and DAA see flag bits that differ. The conditions PO and PE ask for the parity,
which the Z80 replaces by the overflow after arithmetic.
-/

namespace Retrocore.Compatible

open I8080 (decodeOpcode)
open Z80 (decodeRoot Place Operand)

/-! ## Counterparts -/

/-- The place that an 8-bit operand of the 8080 stands for. -/
def placeOf : I8080.Reg → Place
  | .b => .reg .b
  | .c => .reg .c
  | .d => .reg .d
  | .e => .reg .e
  | .h => .reg .h
  | .l => .reg .l
  | .m => .at .hl
  | .a => .reg .a

def pairOf : I8080.Pair → Z80.Pair
  | .b => .bc
  | .d => .de
  | .h => .hl
  | .sp => .sp

/-- The pushable pairs that hold the same on both; the flags' byte is not among
them. -/
def stackPairOf : I8080.StackPair → Option Z80.Pair
  | .b => some .bc
  | .d => some .de
  | .h => some .hl
  | .psw => none

/-- Whether a condition asks for a flag that both processors keep alike. -/
def SameCondition (when? : Option Condition) : Prop :=
  when? ≠ some .po ∧ when? ≠ some .pe

instance (when? : Option Condition) : Decidable (SameCondition when?) :=
  inferInstanceAs (Decidable (_ ∧ _))

/-- The branch under a condition, if it is one that both processors judge
alike. -/
def branchOn (when? : Option Condition) (branch : Z80.Instruction) :
    Option Z80.Instruction :=
  if SameCondition when? then some branch else none

/-- The instruction of the Z80 that does the same. There are eight restarts. -/
def translate : I8080.Instruction → Option Z80.Instruction
  | .nop => some .nop
  | .lxi p v => some (.ldPair (pairOf p) v)
  | .stax p => some (.ld (.at (pairOf p)) (.place (.reg .a)))
  | .ldax p => some (.ld (.reg .a) (.place (.at (pairOf p))))
  | .shld address => some (.storePair address .hl)
  | .lhld address => some (.loadPair .hl address)
  | .sta address => some (.ld (.cell address) (.place (.reg .a)))
  | .lda address => some (.ld (.reg .a) (.place (.cell address)))
  | .inx p => some (.incPair (pairOf p))
  | .dcx p => some (.decPair (pairOf p))
  | .inr r => some (.inc (placeOf r))
  | .dcr r => some (.dec (placeOf r))
  | .mvi r v => some (.ld (placeOf r) (.imm v))
  | .dad p => some (.addPair .hl (pairOf p))
  | .rlc => some .rlca
  | .rrc => some .rrca
  | .ral => some .rla
  | .rar => some .rra
  | .daa => none
  | .cma => some .cpl
  | .stc => some .scf
  | .cmc => some .ccf
  | .mov dst src => some (.ld (placeOf dst) (.place (placeOf src)))
  | .hlt => some .halt
  | .alu op r => some (.alu op (.place (placeOf r)))
  | .aluImm op v => some (.alu op (.imm v))
  | .ret when? => branchOn when? (.ret when?)
  | .jmp when? address => branchOn when? (.jp when? address)
  | .call when? address => branchOn when? (.call when? address)
  | .pop p => (stackPairOf p).map .pop
  | .push p => (stackPairOf p).map .push
  | .rst n => if n < 8 then some (.rst (UInt8.ofNat (8 * n))) else none
  | .pchl => some (.jpAt .hl)
  | .sphl => some (.ldSp .hl)
  | .xthl => some (.exSp .hl)
  | .xchg => some .exDeHl
  | .out port => some (.outImm port)
  | .inp port => some (.inImm port)
  | .di => some .di
  | .ei => some .ei

/-! ## Opcodes -/

/-- The opcodes that the manuals of the 8080 leave out. -/
def undocumented : List Byte :=
  [0x08, 0x10, 0x18, 0x20, 0x28, 0x30, 0x38, 0xcb, 0xd9, 0xdd, 0xed, 0xfd]

/-- The opcodes of DAA, PUSH PSW and POP PSW, and of the six branches on PO and
PE. -/
def flagBound : List Byte := [0x27, 0xf5, 0xf1, 0xe0, 0xe2, 0xe4, 0xe8, 0xea, 0xec]

/-- An opcode that means the same on both processors. -/
def Common (opcode : Byte) : Prop := opcode ∉ undocumented ∧ opcode ∉ flagBound

instance (opcode : Byte) : Decidable (Common opcode) :=
  inferInstanceAs (Decidable (_ ∧ _))

/-- The opcode with the given fields. -/
def opcodeOf (x y z : Nat) : Byte := UInt8.ofNat (64 * x + 8 * y + z)

/-- Every opcode is put together from its fields. -/
theorem opcodeOf_fields (opcode : Byte) :
    opcodeOf (Fields.of opcode).x (Fields.of opcode).y (Fields.of opcode).z =
      opcode := by
  have hlt := opcode.toNat_lt
  apply UInt8.toNat_inj.mp
  simp only [opcodeOf, Fields.of, UInt8.toNat_ofNat']
  omega

/-- A property of all opcodes is shown field by field. -/
theorem forall_opcode {P : Byte → Prop}
    (h : ∀ x < 4, ∀ y < 8, ∀ z < 8, P (opcodeOf x y z)) (opcode : Byte) :
    P opcode := by
  have hlt := opcode.toNat_lt
  rw [← opcodeOf_fields opcode]
  refine h _ ?_ _ ?_ _ ?_ <;> simp only [Fields.of] <;> omega

/-- At a common opcode the decoders read counterparts. -/
theorem decodeRoot_eq {opcode : Byte} (hc : Common opcode) (s : Stream Byte) :
    translate (decodeOpcode opcode s).1 = some (decodeRoot none opcode s).1 ∧
    (decodeOpcode opcode s).2 = (decodeRoot none opcode s).2 := by
  revert hc
  refine forall_opcode (P := fun opcode => Common opcode →
    translate (decodeOpcode opcode s).1 = some (decodeRoot none opcode s).1 ∧
    (decodeOpcode opcode s).2 = (decodeRoot none opcode s).2) ?_ opcode
  intro x hx y hy z hz hc
  -- 256 opcodes: where the decoders part, the opcode is not common
  interval_cases x <;> interval_cases y <;> interval_cases z <;>
    first
    | exact ⟨rfl, rfl⟩
    | exact absurd hc (by decide)

/-- No common opcode is a prefix, so the Z80 looks it up in its root table. -/
theorem decode_of_common {s : Stream Byte} (hc : Common (s 0)) :
    Z80.decode s = .ok (.root (s 0) (decodeRoot none (s 0) (s.drop 1)).1
      (decodeRoot none (s 0) (s.drop 1)).2) := by
  unfold Z80.decode
  -- the four prefixes are undocumented on the 8080
  split
  next h => exact absurd (h ▸ hc) (by decide)
  next h => exact absurd (h ▸ hc) (by decide)
  next h => exact absurd (h ▸ hc) (by decide)
  next h => exact absurd (h ▸ hc) (by decide)
  next => rfl

/-- At the start of a stream, the Z80 reads the counterpart of what the 8080
reads there. -/
theorem decode_agree {s : Stream Byte} {opcode : Byte} (hs : s 0 = opcode)
    (hc : Common opcode) :
    ∃ d, Z80.decode s = .ok d ∧
      translate (decodeOpcode opcode (s.drop 1)).1 = some d.instruction ∧
      d.length = 1 + (decodeOpcode opcode (s.drop 1)).2 := by
  subst hs
  obtain ⟨hinstruction, hoperands⟩ := decodeRoot_eq hc (s.drop 1)
  refine ⟨_, decode_of_common hc, hinstruction, ?_⟩
  rw [hoperands]
  rfl

end Retrocore.Compatible
