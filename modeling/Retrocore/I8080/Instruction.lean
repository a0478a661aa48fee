import Retrocore.Decode

/-!
# Instructions of the 8080

The instruction set, its assembly text, and the decoder. Every opcode means
something: the twelve that the manuals leave out do what their documented
neighbours do.
-/

namespace Retrocore.I8080

/-- An 8-bit operand; `m` is the memory cell that HL points at. -/
inductive Reg where
  | b | c | d | e | h | l | m | a
  deriving DecidableEq, Repr

namespace Reg

def ofCode : Nat → Reg
  | 0 => b
  | 1 => c
  | 2 => d
  | 3 => e
  | 4 => h
  | 5 => l
  | 6 => m
  | _ => a

def name : Reg → String
  | b => "b"
  | c => "c"
  | d => "d"
  | e => "e"
  | h => "h"
  | l => "l"
  | m => "m"
  | a => "a"

instance : Coded Reg where
  ofCode? n := if n < 8 then some (ofCode n) else none
  name := name

end Reg

/-- A register pair, called by its high register. -/
inductive Pair where
  | b | d | h | sp
  deriving DecidableEq, Repr

namespace Pair

def ofCode : Nat → Pair
  | 0 => b
  | 1 => d
  | 2 => h
  | _ => sp

def name : Pair → String
  | b => "b"
  | d => "d"
  | h => "h"
  | sp => "sp"

instance : Coded Pair where
  ofCode? n := if n < 4 then some (ofCode n) else none
  name := name

end Pair

/-- A pair that can be pushed; `psw` is the accumulator and the flags. -/
inductive StackPair where
  | b | d | h | psw
  deriving DecidableEq, Repr

namespace StackPair

def ofCode : Nat → StackPair
  | 0 => b
  | 1 => d
  | 2 => h
  | _ => psw

def name : StackPair → String
  | b => "b"
  | d => "d"
  | h => "h"
  | psw => "psw"

instance : Coded StackPair where
  ofCode? n := if n < 4 then some (ofCode n) else none
  name := name

end StackPair

inductive Instruction where
  | nop
  | lxi (pair : Pair) (value : Word)
  | stax (pair : Pair)
  | ldax (pair : Pair)
  | shld (address : Word)
  | lhld (address : Word)
  | sta (address : Word)
  | lda (address : Word)
  | inx (pair : Pair)
  | dcx (pair : Pair)
  | inr (reg : Reg)
  | dcr (reg : Reg)
  | mvi (reg : Reg) (value : Byte)
  | dad (pair : Pair)
  | rlc
  | rrc
  | ral
  | rar
  | daa
  | cma
  | stc
  | cmc
  | mov (dst src : Reg)
  | hlt
  | alu (op : AluOp) (reg : Reg)
  | aluImm (op : AluOp) (value : Byte)
  | ret (when? : Option Condition)
  | jmp (when? : Option Condition) (address : Word)
  | call (when? : Option Condition) (address : Word)
  | pop (pair : StackPair)
  | push (pair : StackPair)
  | rst (number : Nat)
  | pchl
  | sphl
  | xthl
  | xchg
  | out (port : Byte)
  | inp (port : Byte)
  | di
  | ei
  deriving DecidableEq, Repr

/-! ## Text -/

/-- The mnemonic of an accumulator operation on a register. -/
def aluName : AluOp → String
  | .add => "add"
  | .adc => "adc"
  | .sub => "sub"
  | .sbc => "sbb"
  | .and => "ana"
  | .xor => "xra"
  | .or => "ora"
  | .cp => "cmp"

/-- The mnemonic of an accumulator operation on an immediate byte. -/
def aluImmName : AluOp → String
  | .add => "adi"
  | .adc => "aci"
  | .sub => "sui"
  | .sbc => "sbi"
  | .and => "ani"
  | .xor => "xri"
  | .or => "ori"
  | .cp => "cpi"

open Text in
def Instruction.text : Instruction → String
  | nop => "nop"
  | lxi rp nn => s!"lxi {rp.name}, {hex16 nn}"
  | stax rp => s!"stax {rp.name}"
  | ldax rp => s!"ldax {rp.name}"
  | shld nn => s!"shld {hex16 nn}"
  | lhld nn => s!"lhld {hex16 nn}"
  | sta nn => s!"sta {hex16 nn}"
  | lda nn => s!"lda {hex16 nn}"
  | inx rp => s!"inx {rp.name}"
  | dcx rp => s!"dcx {rp.name}"
  | inr r => s!"inr {r.name}"
  | dcr r => s!"dcr {r.name}"
  | mvi r n => s!"mvi {r.name}, {hex8 n}"
  | dad rp => s!"dad {rp.name}"
  | rlc => "rlc"
  | rrc => "rrc"
  | ral => "ral"
  | rar => "rar"
  | daa => "daa"
  | cma => "cma"
  | stc => "stc"
  | cmc => "cmc"
  | mov dst src => s!"mov {dst.name}, {src.name}"
  | hlt => "hlt"
  | alu op r => s!"{aluName op} {r.name}"
  | aluImm op n => s!"{aluImmName op} {hex8 n}"
  | ret none => "ret"
  | ret (some cc) => s!"r{cc.name}"
  | jmp none nn => s!"jmp {hex16 nn}"
  | jmp (some cc) nn => s!"j{cc.name} {hex16 nn}"
  | call none nn => s!"call {hex16 nn}"
  | call (some cc) nn => s!"c{cc.name} {hex16 nn}"
  | pop p => s!"pop {p.name}"
  | push p => s!"push {p.name}"
  | rst n => s!"rst {n}"
  | pchl => "pchl"
  | sphl => "sphl"
  | xthl => "xthl"
  | xchg => "xchg"
  | out port => s!"out {hex8 port}"
  | inp port => s!"in {hex8 port}"
  | di => "di"
  | ei => "ei"

/-! ## Decoding -/

/-- The instruction of an opcode whose operands are the first cells of `s`, and
how many of these it takes. -/
def decodeOpcode (opcode : Byte) (s : Stream Byte) : Instruction × Nat :=
  let f := Fields.of opcode
  match f.x with
  | 0 =>
    match f.z with
    | 0 => (.nop, 0)
    | 1 => if f.q = 0 then (.lxi (.ofCode f.p) (s.word 0), 2) else (.dad (.ofCode f.p), 0)
    | 2 =>
      match f.q, f.p with
      | 0, 0 => (.stax .b, 0)
      | 0, 1 => (.stax .d, 0)
      | 0, 2 => (.shld (s.word 0), 2)
      | 0, _ => (.sta (s.word 0), 2)
      | _, 0 => (.ldax .b, 0)
      | _, 1 => (.ldax .d, 0)
      | _, 2 => (.lhld (s.word 0), 2)
      | _, _ => (.lda (s.word 0), 2)
    | 3 => (if f.q = 0 then .inx (.ofCode f.p) else .dcx (.ofCode f.p), 0)
    | 4 => (.inr (.ofCode f.y), 0)
    | 5 => (.dcr (.ofCode f.y), 0)
    | 6 => (.mvi (.ofCode f.y) (s 0), 1)
    | _ =>
      match f.y with
      | 0 => (.rlc, 0)
      | 1 => (.rrc, 0)
      | 2 => (.ral, 0)
      | 3 => (.rar, 0)
      | 4 => (.daa, 0)
      | 5 => (.cma, 0)
      | 6 => (.stc, 0)
      | _ => (.cmc, 0)
  | 1 =>
    if f.y = 6 ∧ f.z = 6 then (.hlt, 0) else (.mov (.ofCode f.y) (.ofCode f.z), 0)
  | 2 => (.alu (.ofCode f.y) (.ofCode f.z), 0)
  | _ =>
    match f.z with
    | 0 => (.ret (some (.ofCode f.y)), 0)
    | 1 =>
      if f.q = 0 then (.pop (.ofCode f.p), 0)
      else
        match f.p with
        | 0 | 1 => (.ret none, 0)
        | 2 => (.pchl, 0)
        | _ => (.sphl, 0)
    | 2 => (.jmp (some (.ofCode f.y)) (s.word 0), 2)
    | 3 =>
      match f.y with
      | 0 | 1 => (.jmp none (s.word 0), 2)
      | 2 => (.out (s 0), 1)
      | 3 => (.inp (s 0), 1)
      | 4 => (.xthl, 0)
      | 5 => (.xchg, 0)
      | 6 => (.di, 0)
      | _ => (.ei, 0)
    | 4 => (.call (some (.ofCode f.y)) (s.word 0), 2)
    | 5 => if f.q = 0 then (.push (.ofCode f.p), 0) else (.call none (s.word 0), 2)
    | 6 => (.aluImm (.ofCode f.y) (s 0), 1)
    | _ => (.rst f.y, 0)

/-- The instruction at the start of a stream. There always is one. -/
def decode (s : Stream Byte) : Decoded Instruction :=
  let (instruction, operands) := decodeOpcode (s 0) (s.drop 1)
  .root (s 0) instruction operands

end Retrocore.I8080
