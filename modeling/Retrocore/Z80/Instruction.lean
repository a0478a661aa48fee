import Retrocore.Decode
import Retrocore.Text.Offset

/-!
# Instructions of the Z80

The instruction set and its assembly text. `Place` is where a byte can be
stored, `Operand` a byte that can be read; the decoder in `Retrocore.Z80.Decode`
never makes an instruction that would have to store into an immediate value.
-/

namespace Retrocore.Z80

open Text

inductive Reg where
  | b | c | d | e | h | l | a
  | ixh | ixl | iyh | iyl
  | i | r
  deriving DecidableEq, Repr

def Reg.name : Reg → String
  | b => "b"
  | c => "c"
  | d => "d"
  | e => "e"
  | h => "h"
  | l => "l"
  | a => "a"
  | ixh => "ixh"
  | ixl => "ixl"
  | iyh => "iyh"
  | iyl => "iyl"
  | i => "i"
  | r => "r"

/-- The two index registers. -/
inductive Index where
  | ix | iy
  deriving DecidableEq, Repr

def Index.name : Index → String
  | ix => "ix"
  | iy => "iy"

inductive Pair where
  | bc | de | hl | sp | af | ix | iy
  deriving DecidableEq, Repr

def Pair.name : Pair → String
  | bc => "bc"
  | de => "de"
  | hl => "hl"
  | sp => "sp"
  | af => "af"
  | ix => "ix"
  | iy => "iy"

def Index.pair : Index → Pair
  | ix => .ix
  | iy => .iy

/-- The high half of an index register. -/
def Index.high : Index → Reg
  | ix => .ixh
  | iy => .iyh

/-- The low half of an index register. -/
def Index.low : Index → Reg
  | ix => .ixl
  | iy => .iyl

/-- A place that holds a byte. -/
inductive Place where
  | reg (which : Reg)
  /-- The cell that a pair points at. -/
  | at (pair : Pair)
  /-- The cell at a signed distance from where an index register points. -/
  | idx (index : Index) (offset : Byte)
  | cell (address : Word)
  deriving DecidableEq, Repr

/-- A byte to be read: from a place, or as it stands in the instruction. -/
inductive Operand where
  | place (p : Place)
  | imm (value : Byte)
  deriving DecidableEq, Repr

/-- What a block instruction does with each byte. -/
inductive BlockKind where
  | ld | cp | inp | out
  deriving DecidableEq, Repr

/-- A block instruction: downwards or upwards, once or until it is done. -/
structure Block where
  kind : BlockKind
  down : Bool
  repeating : Bool
  deriving DecidableEq, Repr

inductive Instruction where
  | nop
  | halt
  | ld (dst : Place) (src : Operand)
  | ldPair (pair : Pair) (value : Word)
  | loadPair (pair : Pair) (address : Word)
  | storePair (address : Word) (pair : Pair)
  | ldSp (pair : Pair)
  | push (pair : Pair)
  | pop (pair : Pair)
  | exAf
  | exx
  | exDeHl
  | exSp (pair : Pair)
  | alu (op : AluOp) (src : Operand)
  | inc (target : Place)
  | dec (target : Place)
  | incPair (pair : Pair)
  | decPair (pair : Pair)
  | addPair (dst src : Pair)
  | adcHl (pair : Pair)
  | sbcHl (pair : Pair)
  | rlca
  | rrca
  | rla
  | rra
  | daa
  | cpl
  | scf
  | ccf
  | neg
  /-- With an indexed target the result may go to a register as well. -/
  | rot (op : RotateOp) (target : Place) (copy : Option Reg)
  | bit (n : Nat) (target : Place)
  | res (n : Nat) (target : Place) (copy : Option Reg)
  | set (n : Nat) (target : Place) (copy : Option Reg)
  | rld
  | rrd
  | jp (when? : Option Condition) (address : Word)
  | jpAt (pair : Pair)
  | jr (when? : Option Condition) (offset : Byte)
  | djnz (offset : Byte)
  | call (when? : Option Condition) (address : Word)
  | ret (when? : Option Condition)
  | reti
  | retn
  | rst (address : Byte)
  | inImm (port : Byte)
  /-- Reads port C; without a register only the flags hear of it. -/
  | inC (dst : Option Reg)
  | outImm (port : Byte)
  /-- Writes to port C; without a register the value is zero. -/
  | outC (src : Option Reg)
  | di
  | ei
  | im (mode : Nat)
  | block (b : Block)
  deriving DecidableEq, Repr

/-! ## Text -/

def Place.text : Place → String
  | reg which => which.name
  | .at p => s!"({p.name})"
  | idx index d => s!"({index.name}{markedHex d})"
  | cell nn => s!"({hex16 nn})"

def Operand.text : Operand → String
  | place p => p.text
  | imm n => hex8 n

def Block.text (b : Block) : String :=
  let way := if b.down then "d" else "i"
  let again := if b.repeating then "r" else ""
  match b.kind with
  | .ld => s!"ld{way}{again}"
  | .cp => s!"cp{way}{again}"
  | .inp => s!"in{way}{again}"
  | .out => if b.repeating then s!"ot{way}r" else s!"out{way}"

/-- The register that a result is copied to, as it follows the other
operands. -/
def copyText : Option Reg → String
  | none => ""
  | some reg => s!", {reg.name}"

/-- The assembly text; a relative jump shows its target if the instruction's
address is given. -/
def Instruction.textAt (pc : Option Word) : Instruction → String
  | nop => "nop"
  | halt => "halt"
  | ld dst src => s!"ld {dst.text}, {src.text}"
  | ldPair p nn => s!"ld {p.name}, {hex16 nn}"
  | loadPair p nn => s!"ld {p.name}, ({hex16 nn})"
  | storePair nn p => s!"ld ({hex16 nn}), {p.name}"
  | ldSp p => s!"ld sp, {p.name}"
  | push p => s!"push {p.name}"
  | pop p => s!"pop {p.name}"
  | exAf => "ex af, af'"
  | exx => "exx"
  | exDeHl => "ex de, hl"
  | exSp p => s!"ex (sp), {p.name}"
  | alu op src =>
    match op with
    | .add | .adc | .sbc => s!"{op.name} a, {src.text}"
    | _ => s!"{op.name} {src.text}"
  | inc target => s!"inc {target.text}"
  | dec target => s!"dec {target.text}"
  | incPair p => s!"inc {p.name}"
  | decPair p => s!"dec {p.name}"
  | addPair dst src => s!"add {dst.name}, {src.name}"
  | adcHl p => s!"adc hl, {p.name}"
  | sbcHl p => s!"sbc hl, {p.name}"
  | rlca => "rlca"
  | rrca => "rrca"
  | rla => "rla"
  | rra => "rra"
  | daa => "daa"
  | cpl => "cpl"
  | scf => "scf"
  | ccf => "ccf"
  | neg => "neg"
  | rot op target copy => s!"{op.name} {target.text}{copyText copy}"
  | bit n target => s!"bit {n}, {target.text}"
  | res n target copy => s!"res {n}, {target.text}{copyText copy}"
  | set n target copy => s!"set {n}, {target.text}{copyText copy}"
  | rld => "rld"
  | rrd => "rrd"
  | jp none nn => s!"jp {hex16 nn}"
  | jp (some cc) nn => s!"jp {cc.name}, {hex16 nn}"
  | jpAt p => s!"jp ({p.name})"
  | jr none d => s!"jr {relativeTarget pc d}"
  | jr (some cc) d => s!"jr {cc.name}, {relativeTarget pc d}"
  | djnz d => s!"djnz {relativeTarget pc d}"
  | call none nn => s!"call {hex16 nn}"
  | call (some cc) nn => s!"call {cc.name}, {hex16 nn}"
  | ret none => "ret"
  | ret (some cc) => s!"ret {cc.name}"
  | reti => "reti"
  | retn => "retn"
  | rst n => s!"rst {hex8 n}"
  | inImm port => s!"in a, ({hex8 port})"
  | inC (some dst) => s!"in {dst.name}, (c)"
  | inC none => "in (c)"
  | outImm port => s!"out ({hex8 port}), a"
  | outC (some src) => s!"out (c), {src.name}"
  | outC none => "out (c), 0"
  | di => "di"
  | ei => "ei"
  | im mode => s!"im {mode}"
  | block b => b.text

end Retrocore.Z80
