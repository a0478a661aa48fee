import Retrocore.Decode
import Retrocore.Text.Offset

/-!
# Instructions of the LR35902

The instruction set, its assembly text, and the decoder. Eleven opcodes of the
root table stand for nothing; the table behind the `cb` byte is full.
-/

namespace Retrocore.Lr35902

inductive Reg where
  | b | c | d | e | h | l | a
  deriving DecidableEq, Repr

namespace Reg

/-- Number 6 is left to the cell that HL points at. -/
def ofCode? : Nat → Option Reg
  | 0 => some b
  | 1 => some c
  | 2 => some d
  | 3 => some e
  | 4 => some h
  | 5 => some l
  | 7 => some a
  | _ => none

def name : Reg → String
  | b => "b"
  | c => "c"
  | d => "d"
  | e => "e"
  | h => "h"
  | l => "l"
  | a => "a"

instance : Coded Reg := ⟨ofCode?, name⟩

end Reg

inductive Pair where
  | bc | de | hl | sp | af
  deriving DecidableEq, Repr

namespace Pair

/-- The pairs that 16-bit arithmetic works on. -/
def ofCode : Nat → Pair
  | 0 => bc
  | 1 => de
  | 2 => hl
  | _ => sp

/-- The pairs that can be pushed. -/
def ofStackCode : Nat → Pair
  | 0 => bc
  | 1 => de
  | 2 => hl
  | _ => af

def name : Pair → String
  | bc => "bc"
  | de => "de"
  | hl => "hl"
  | sp => "sp"
  | af => "af"

end Pair

/-- A place that holds a byte. -/
inductive Place where
  | reg (r : Reg)
  /-- The cell that a pair points at. -/
  | at (pair : Pair)
  /-- The cell that HL points at; HL moves up after the access. -/
  | hlUp
  /-- The cell that HL points at; HL moves down after the access. -/
  | hlDown
  | cell (address : Word)
  /-- A cell of the last page, by its number. -/
  | high (low : Byte)
  /-- A cell of the last page, numbered by C. -/
  | highC
  deriving DecidableEq, Repr

/-- A byte to be read: from a place, or as it stands in the instruction. -/
inductive Operand where
  | place (p : Place)
  | imm (value : Byte)
  deriving DecidableEq, Repr

inductive Instruction where
  | nop
  | stop
  | halt
  | ld (dst : Place) (src : Operand)
  | ldPair (pair : Pair) (value : Word)
  | storeSp (address : Word)
  | ldSpHl
  | ldHlSp (offset : Byte)
  | addHl (pair : Pair)
  | addSp (offset : Byte)
  | incPair (pair : Pair)
  | decPair (pair : Pair)
  | inc (target : Place)
  | dec (target : Place)
  | rlca
  | rrca
  | rla
  | rra
  | daa
  | cpl
  | scf
  | ccf
  | alu (op : AluOp) (src : Operand)
  | rot (op : RotateOp) (target : Place)
  | swap (target : Place)
  | bit (n : Nat) (target : Place)
  | res (n : Nat) (target : Place)
  | set (n : Nat) (target : Place)
  | jp (when? : Option Condition) (address : Word)
  | jpHl
  | jr (when? : Option Condition) (offset : Byte)
  | call (when? : Option Condition) (address : Word)
  | ret (when? : Option Condition)
  | reti
  | rst (address : Byte)
  | push (pair : Pair)
  | pop (pair : Pair)
  | di
  | ei
  deriving DecidableEq, Repr

/-! ## Text -/

open Text

def Place.text : Place → String
  | reg r => r.name
  | .at p => s!"({p.name})"
  | hlUp => "(hl+)"
  | hlDown => "(hl-)"
  | cell nn => s!"({hex16 nn})"
  | high n => s!"(0xff00+{hex8 n})"
  | highC => "(0xff00+c)"

def Operand.text : Operand → String
  | place p => p.text
  | imm n => hex8 n

/-- The assembly text; a relative jump shows its target if the instruction's
address is given. -/
def Instruction.textAt (pc : Option Word) : Instruction → String
  | nop => "nop"
  | stop => "stop"
  | halt => "halt"
  | ld dst src => s!"ld {dst.text}, {src.text}"
  | ldPair p nn => s!"ld {p.name}, {hex16 nn}"
  | storeSp nn => s!"ld ({hex16 nn}), sp"
  | ldSpHl => "ld sp, hl"
  | ldHlSp e => s!"ld hl, sp{markedDecimal e}"
  | addHl p => s!"add hl, {p.name}"
  | addSp e => s!"add sp, {signedDecimal e}"
  | incPair p => s!"inc {p.name}"
  | decPair p => s!"dec {p.name}"
  | inc target => s!"inc {target.text}"
  | dec target => s!"dec {target.text}"
  | rlca => "rlca"
  | rrca => "rrca"
  | rla => "rla"
  | rra => "rra"
  | daa => "daa"
  | cpl => "cpl"
  | scf => "scf"
  | ccf => "ccf"
  | alu op src =>
    match op with
    | .add | .adc | .sbc => s!"{op.name} a, {src.text}"
    | _ => s!"{op.name} {src.text}"
  | rot op target => s!"{op.name} {target.text}"
  | swap target => s!"swap {target.text}"
  | bit n target => s!"bit {n}, {target.text}"
  | res n target => s!"res {n}, {target.text}"
  | set n target => s!"set {n}, {target.text}"
  | jp none nn => s!"jp {hex16 nn}"
  | jp (some cc) nn => s!"jp {cc.name}, {hex16 nn}"
  | jpHl => "jp hl"
  | jr none d => s!"jr {relativeTarget pc d}"
  | jr (some cc) d => s!"jr {cc.name}, {relativeTarget pc d}"
  | call none nn => s!"call {hex16 nn}"
  | call (some cc) nn => s!"call {cc.name}, {hex16 nn}"
  | ret none => "ret"
  | ret (some cc) => s!"ret {cc.name}"
  | reti => "reti"
  | rst n => s!"rst {hex8 n}"
  | push p => s!"push {p.name}"
  | pop p => s!"pop {p.name}"
  | di => "di"
  | ei => "ei"

/-! ## Decoding -/

/-- The place that a 3-bit field names. -/
def Place.ofCode (code : Nat) : Place :=
  match Reg.ofCode? code with
  | some r => .reg r
  | none => .at .hl

/-- The places that the accumulator is loaded from or stored to through a
pair. -/
def Place.ofIndirectCode : Nat → Place
  | 0 => .at .bc
  | 1 => .at .de
  | 2 => .hlUp
  | _ => .hlDown

/-- The instruction behind a `cb` byte. -/
def decodeBits (opcode : Byte) : Instruction :=
  let f := Fields.of opcode
  let target := Place.ofCode f.z
  match f.x with
  | 0 => if f.y = 6 then .swap target else .rot (.ofCode f.y) target
  | 1 => .bit f.y target
  | 2 => .res f.y target
  | _ => .set f.y target

/-- The instruction of an opcode of the root table whose operands are the first
cells of `s`, and how many of these it takes. -/
def decodeOpcode (opcode : Byte) (s : Stream Byte) : Option (Instruction × Nat) :=
  let f := Fields.of opcode
  let a : Place := .reg .a
  match f.x with
  | 0 =>
    match f.z with
    | 0 =>
      match f.y with
      | 0 => some (.nop, 0)
      | 1 => some (.storeSp (s.word 0), 2)
      -- The byte behind STOP belongs to it.
      | 2 => some (.stop, 1)
      | 3 => some (.jr none (s 0), 1)
      | _ => some (.jr (some (.ofCode (f.y - 4))) (s 0), 1)
    | 1 =>
      if f.q = 0 then some (.ldPair (.ofCode f.p) (s.word 0), 2)
      else some (.addHl (.ofCode f.p), 0)
    | 2 =>
      let cell := Place.ofIndirectCode f.p
      if f.q = 0 then some (.ld cell (.place a), 0) else some (.ld a (.place cell), 0)
    | 3 => if f.q = 0 then some (.incPair (.ofCode f.p), 0) else some (.decPair (.ofCode f.p), 0)
    | 4 => some (.inc (.ofCode f.y), 0)
    | 5 => some (.dec (.ofCode f.y), 0)
    | 6 => some (.ld (.ofCode f.y) (.imm (s 0)), 1)
    | _ =>
      match f.y with
      | 0 => some (.rlca, 0)
      | 1 => some (.rrca, 0)
      | 2 => some (.rla, 0)
      | 3 => some (.rra, 0)
      | 4 => some (.daa, 0)
      | 5 => some (.cpl, 0)
      | 6 => some (.scf, 0)
      | _ => some (.ccf, 0)
  | 1 =>
    if f.y = 6 ∧ f.z = 6 then some (.halt, 0)
    else some (.ld (.ofCode f.y) (.place (.ofCode f.z)), 0)
  | 2 => some (.alu (.ofCode f.y) (.place (.ofCode f.z)), 0)
  | _ =>
    match f.z with
    | 0 =>
      match f.y with
      | 4 => some (.ld (.high (s 0)) (.place a), 1)
      | 5 => some (.addSp (s 0), 1)
      | 6 => some (.ld a (.place (.high (s 0))), 1)
      | 7 => some (.ldHlSp (s 0), 1)
      | _ => some (.ret (some (.ofCode f.y)), 0)
    | 1 =>
      if f.q = 0 then some (.pop (.ofStackCode f.p), 0)
      else
        match f.p with
        | 0 => some (.ret none, 0)
        | 1 => some (.reti, 0)
        | 2 => some (.jpHl, 0)
        | _ => some (.ldSpHl, 0)
    | 2 =>
      match f.y with
      | 4 => some (.ld .highC (.place a), 0)
      | 5 => some (.ld (.cell (s.word 0)) (.place a), 2)
      | 6 => some (.ld a (.place .highC), 0)
      | 7 => some (.ld a (.place (.cell (s.word 0))), 2)
      | _ => some (.jp (some (.ofCode f.y)) (s.word 0), 2)
    | 3 =>
      match f.y with
      | 0 => some (.jp none (s.word 0), 2)
      | 6 => some (.di, 0)
      | 7 => some (.ei, 0)
      | _ => none
    | 4 => if f.y < 4 then some (.call (some (.ofCode f.y)) (s.word 0), 2) else none
    | 5 =>
      if f.q = 0 then some (.push (.ofStackCode f.p), 0)
      else if f.p = 0 then some (.call none (s.word 0), 2)
      else none
    | 6 => some (.alu (.ofCode f.y) (.imm (s 0)), 1)
    | _ => some (.rst (UInt8.ofNat (8 * f.y)), 0)

def decode (s : Stream Byte) : Except Undecodable (Decoded Instruction) :=
  if s 0 = 0xcb then
    .ok ⟨decodeBits (s 1), .bits, s 1, 2, 2⟩
  else
    match decodeOpcode (s 0) (s.drop 1) with
    | some (instruction, operands) => .ok (.root (s 0) instruction operands)
    | none => .error ⟨(s 0).toUInt16, .root, 1, 1⟩

end Retrocore.Lr35902
