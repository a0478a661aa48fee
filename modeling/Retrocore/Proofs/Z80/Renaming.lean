import Retrocore.Z80.Decode

/-!
# Renaming the operands of an instruction

An instruction of the Z80 names its operands: registers, pairs, and the index
register that a cell lies at a distance from. A `Renaming` puts other names in
their places, all over an instruction, and changes nothing else of it.
-/

namespace Retrocore

/-- What was decoded, with another instruction in its place. -/
def Decoded.map {ι κ : Type} (f : ι → κ) (d : Decoded ι) : Decoded κ :=
  { d with instruction := f d.instruction }

namespace Z80

/-- Names to be put in the place of others. -/
structure Renaming where
  reg : Reg → Reg
  pair : Pair → Pair
  index : Index → Index

def Place.rename (ρ : Renaming) : Place → Place
  | reg which => .reg (ρ.reg which)
  | .at p => .at (ρ.pair p)
  | idx index d => .idx (ρ.index index) d
  | cell address => .cell address

def Operand.rename (ρ : Renaming) : Operand → Operand
  | place p => .place (p.rename ρ)
  | imm v => .imm v

/-- The instruction with every operand renamed. What an instruction uses without
naming it stays: the accumulator of ALU operations, the pairs of EX DE,HL and of
block instructions. -/
def Instruction.rename (ρ : Renaming) : Instruction → Instruction
  | ld dst src => .ld (dst.rename ρ) (src.rename ρ)
  | ldPair p v => .ldPair (ρ.pair p) v
  | loadPair p address => .loadPair (ρ.pair p) address
  | storePair address p => .storePair address (ρ.pair p)
  | ldSp p => .ldSp (ρ.pair p)
  | push p => .push (ρ.pair p)
  | pop p => .pop (ρ.pair p)
  | exSp p => .exSp (ρ.pair p)
  | alu op src => .alu op (src.rename ρ)
  | inc target => .inc (target.rename ρ)
  | dec target => .dec (target.rename ρ)
  | incPair p => .incPair (ρ.pair p)
  | decPair p => .decPair (ρ.pair p)
  | addPair dst src => .addPair (ρ.pair dst) (ρ.pair src)
  | adcHl p => .adcHl (ρ.pair p)
  | sbcHl p => .sbcHl (ρ.pair p)
  | rot op target copy => .rot op (target.rename ρ) (copy.map ρ.reg)
  | bit n target => .bit n (target.rename ρ)
  | res n target copy => .res n (target.rename ρ) (copy.map ρ.reg)
  | set n target copy => .set n (target.rename ρ) (copy.map ρ.reg)
  | jpAt p => .jpAt (ρ.pair p)
  | inC dst => .inC (dst.map ρ.reg)
  | outC src => .outC (src.map ρ.reg)
  | i => i

end Z80

end Retrocore
