import Retrocore.Z80.Instruction

/-!
# Decoding the Z80

One root table, and four more behind prefix bytes: `cb` for bits, `ed` for the
extended set, `dd` and `fd` for the root table with an index register in the
place of HL, and `dd cb` and `fd cb` for bits of an indexed cell. Decoding fails
only in the holes of the extended table and where one of `dd`, `ed` and `fd`
follows a `dd` or `fd`.
-/

namespace Retrocore.Z80

/-- The seven registers that a 3-bit field names; number 6 is not one of
them. -/
def Reg.ofCode : Nat → Reg
  | 0 => .b
  | 1 => .c
  | 2 => .d
  | 3 => .e
  | 4 => .h
  | 5 => .l
  | _ => .a

/-- HL, or the index register that stands in for it. -/
def Pair.hlOr : Option Index → Pair
  | none => .hl
  | some index => index.pair

/-- The pairs that 16-bit arithmetic works on. -/
def Pair.ofCode (index : Option Index) : Nat → Pair
  | 0 => .bc
  | 1 => .de
  | 2 => Pair.hlOr index
  | _ => .sp

/-- The pairs that can be pushed. -/
def Pair.ofStackCode (index : Option Index) : Nat → Pair
  | 3 => .af
  | code => Pair.ofCode index code

/-- The place that a 3-bit field names. With an index register, its halves stand
in for H and L, and the cell at distance `d` from it for the cell that HL points
at. -/
def Place.ofCode (index : Option Index) (d : Byte) : Nat → Place
  | 4 => .reg (index.elim .h Index.high)
  | 5 => .reg (index.elim .l Index.low)
  | 6 => index.elim (.at .hl) (.idx · d)
  | code => .reg (Reg.ofCode code)

/-- How many cells the distance takes that belongs to a place named by a 3-bit
field. -/
def distanceCells (index : Option Index) (code : Nat) : Nat :=
  if code = 6 ∧ index.isSome then 1 else 0

/-- The instruction of an opcode of the root table whose operands are the first
cells of `s`, and how many of these it takes. The slots of the four prefix bytes
hold no instruction of their own. -/
def decodeRoot (index : Option Index) (opcode : Byte) (s : Stream Byte) : Instruction × Nat :=
  let f := Fields.of opcode
  let a : Place := .reg .a
  let base := Pair.hlOr index
  let place := Place.ofCode index (s 0)
  let cells := distanceCells index
  match f.x with
  | 0 =>
    match f.z with
    | 0 =>
      match f.y with
      | 0 => (.nop, 0)
      | 1 => (.exAf, 0)
      | 2 => (.djnz (s 0), 1)
      | 3 => (.jr none (s 0), 1)
      | _ => (.jr (some (.ofCode (f.y - 4))) (s 0), 1)
    | 1 =>
      let pair := Pair.ofCode index f.p
      if f.q = 0 then (.ldPair pair (s.word 0), 2) else (.addPair base pair, 0)
    | 2 =>
      match f.q, f.p with
      | 0, 0 => (.ld (.at .bc) (.place a), 0)
      | 0, 1 => (.ld (.at .de) (.place a), 0)
      | 0, 2 => (.storePair (s.word 0) base, 2)
      | 0, _ => (.ld (.cell (s.word 0)) (.place a), 2)
      | _, 0 => (.ld a (.place (.at .bc)), 0)
      | _, 1 => (.ld a (.place (.at .de)), 0)
      | _, 2 => (.loadPair base (s.word 0), 2)
      | _, _ => (.ld a (.place (.cell (s.word 0))), 2)
    | 3 => if f.q = 0 then (.incPair (.ofCode index f.p), 0) else (.decPair (.ofCode index f.p), 0)
    | 4 => (.inc (place f.y), cells f.y)
    | 5 => (.dec (place f.y), cells f.y)
    | 6 => (.ld (place f.y) (.imm (s (cells f.y))), cells f.y + 1)
    | _ =>
      match f.y with
      | 0 => (.rlca, 0)
      | 1 => (.rrca, 0)
      | 2 => (.rla, 0)
      | 3 => (.rra, 0)
      | 4 => (.daa, 0)
      | 5 => (.cpl, 0)
      | 6 => (.scf, 0)
      | _ => (.ccf, 0)
  | 1 =>
    -- Beside a memory operand, H and L are themselves whatever the prefix.
    match f.y, f.z with
    | 6, 6 => (.halt, 0)
    | 6, z => (.ld (place 6) (.place (.reg (Reg.ofCode z))), cells 6)
    | y, 6 => (.ld (.reg (Reg.ofCode y)) (.place (place 6)), cells 6)
    | y, z => (.ld (place y) (.place (place z)), 0)
  | 2 => (.alu (.ofCode f.y) (.place (place f.z)), cells f.z)
  | _ =>
    match f.z with
    | 0 => (.ret (some (.ofCode f.y)), 0)
    | 1 =>
      if f.q = 0 then (.pop (.ofStackCode index f.p), 0)
      else
        match f.p with
        | 0 => (.ret none, 0)
        | 1 => (.exx, 0)
        | 2 => (.jpAt base, 0)
        | _ => (.ldSp base, 0)
    | 2 => (.jp (some (.ofCode f.y)) (s.word 0), 2)
    | 3 =>
      match f.y with
      | 0 => (.jp none (s.word 0), 2)
      | 1 => (.nop, 0)
      | 2 => (.outImm (s 0), 1)
      | 3 => (.inImm (s 0), 1)
      | 4 => (.exSp base, 0)
      | 5 => (.exDeHl, 0)
      | 6 => (.di, 0)
      | _ => (.ei, 0)
    | 4 => (.call (some (.ofCode f.y)) (s.word 0), 2)
    | 5 =>
      if f.q = 0 then (.push (.ofStackCode index f.p), 0)
      else
        match f.p with
        | 0 => (.call none (s.word 0), 2)
        | _ => (.nop, 0)
    | 6 => (.alu (.ofCode f.y) (.imm (s 0)), 1)
    | _ => (.rst (UInt8.ofNat (8 * f.y)), 0)

/-- A rotate, shift or bit instruction on the given target. -/
def decodeBits (opcode : Byte) (target : Place) (copy : Option Reg) : Instruction :=
  let f := Fields.of opcode
  match f.x with
  | 0 => .rot (.ofCode f.y) target copy
  | 1 => .bit f.y target
  | 2 => .res f.y target copy
  | _ => .set f.y target copy

/-- The interrupt modes that the eight spellings of IM select. -/
def interruptModeCode : Nat → Nat
  | 2 | 6 => 1
  | 3 | 7 => 2
  | _ => 0

def BlockKind.ofCode : Nat → BlockKind
  | 0 => .ld
  | 1 => .cp
  | 2 => .inp
  | _ => .out

/-- The instruction of an opcode behind an `ed` byte whose operands are the
first cells of `s`, and how many of these it takes. -/
def decodeExtended (opcode : Byte) (s : Stream Byte) : Option (Instruction × Nat) :=
  let f := Fields.of opcode
  let pair := Pair.ofCode none f.p
  match f.x, f.z with
  | 1, 0 => some (.inC (if f.y = 6 then none else some (.ofCode f.y)), 0)
  | 1, 1 => some (.outC (if f.y = 6 then none else some (.ofCode f.y)), 0)
  | 1, 2 => some (if f.q = 0 then .sbcHl pair else .adcHl pair, 0)
  | 1, 3 => some (if f.q = 0 then .storePair (s.word 0) pair else .loadPair pair (s.word 0), 2)
  | 1, 4 => some (.neg, 0)
  | 1, 5 => some (if f.y = 1 then .reti else .retn, 0)
  | 1, 6 => some (.im (interruptModeCode f.y), 0)
  | 1, _ =>
    match f.y with
    | 0 => some (.ld (.reg .i) (.place (.reg .a)), 0)
    | 1 => some (.ld (.reg .r) (.place (.reg .a)), 0)
    | 2 => some (.ld (.reg .a) (.place (.reg .i)), 0)
    | 3 => some (.ld (.reg .a) (.place (.reg .r)), 0)
    | 4 => some (.rrd, 0)
    | 5 => some (.rld, 0)
    | _ => some (.nop, 0)
  | 2, z =>
    if z < 4 ∧ 4 ≤ f.y then some (.block ⟨.ofCode z, f.q = 1, 6 ≤ f.y⟩, 0) else none
  | _, _ => none

/-- What follows a `dd` or `fd` byte; `s` starts behind it. -/
def decodeIndexed (index : Index) (s : Stream Byte) : Except Undecodable (Decoded Instruction) :=
  match s 0 with
  | 0xcb =>
    -- The distance stands before the opcode, which does not count as an opcode fetch.
    let copy := if (s 2) % 8 = 6 then none else some (Reg.ofCode ((s 2) % 8).toNat)
    .ok ⟨decodeBits (s 2) (.idx index (s 1)) copy, .indexedBits, s 2, 4, 2⟩
  | 0xdd | 0xed | 0xfd => .error ⟨(s 0).toUInt16, .indexed, 2, 2⟩
  | opcode =>
    let (instruction, operands) := decodeRoot (some index) opcode (s.drop 1)
    .ok ⟨instruction, .indexed, opcode, 2 + operands, 2⟩

/-- The instruction at the start of a stream. -/
def decode (s : Stream Byte) : Except Undecodable (Decoded Instruction) :=
  match s 0 with
  | 0xcb =>
    .ok ⟨decodeBits (s 1) (Place.ofCode none 0 ((s 1) % 8).toNat) none, .bits, s 1, 2, 2⟩
  | 0xed =>
    match decodeExtended (s 1) (s.drop 2) with
    | some (instruction, operands) => .ok ⟨instruction, .extended, s 1, 2 + operands, 2⟩
    | none => .error ⟨(s 1).toUInt16, .extended, 2, 2⟩
  | 0xdd => decodeIndexed .ix (s.drop 1)
  | 0xfd => decodeIndexed .iy (s.drop 1)
  | opcode =>
    let (instruction, operands) := decodeRoot none opcode (s.drop 1)
    .ok (.root opcode instruction operands)

end Retrocore.Z80
