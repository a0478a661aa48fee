import Retrocore.Decode

/-!
# Instructions of the Synacor machine

An instruction is an operation number followed by up to three arguments, each a
word of its own. An argument is a 15-bit number or one of eight registers.
-/

namespace Retrocore.Synacor

/-- Arithmetic is modulo 2¹⁵, which is also the number of memory cells. -/
def modulus : Word := 32768

inductive Op where
  | halt | set | push | pop | eq | gt | jmp | jt | jf | add | mult | mod | and | or | not
  | rmem | wmem | call | ret | out | inp | noop
  deriving DecidableEq, Repr

namespace Op

def ofCode? : Nat → Option Op
  | 0 => some halt
  | 1 => some set
  | 2 => some push
  | 3 => some pop
  | 4 => some eq
  | 5 => some gt
  | 6 => some jmp
  | 7 => some jt
  | 8 => some jf
  | 9 => some add
  | 10 => some mult
  | 11 => some mod
  | 12 => some and
  | 13 => some or
  | 14 => some not
  | 15 => some rmem
  | 16 => some wmem
  | 17 => some call
  | 18 => some ret
  | 19 => some out
  | 20 => some inp
  | 21 => some noop
  | _ => none

def code : Op → Word
  | halt => 0
  | set => 1
  | push => 2
  | pop => 3
  | eq => 4
  | gt => 5
  | jmp => 6
  | jt => 7
  | jf => 8
  | add => 9
  | mult => 10
  | mod => 11
  | and => 12
  | or => 13
  | not => 14
  | rmem => 15
  | wmem => 16
  | call => 17
  | ret => 18
  | out => 19
  | inp => 20
  | noop => 21

def name : Op → String
  | halt => "halt"
  | set => "set"
  | push => "push"
  | pop => "pop"
  | eq => "eq"
  | gt => "gt"
  | jmp => "jmp"
  | jt => "jt"
  | jf => "jf"
  | add => "add"
  | mult => "mult"
  | mod => "mod"
  | and => "and"
  | or => "or"
  | not => "not"
  | rmem => "rmem"
  | wmem => "wmem"
  | call => "call"
  | ret => "ret"
  | out => "out"
  | inp => "in"
  | noop => "noop"

instance : Coded Op := ⟨ofCode?, name⟩

theorem ofCode?_code (op : Op) : ofCode? op.code.toNat = some op := by
  cases op <;> rfl

end Op

/-- A 15-bit number or a register. -/
inductive Arg where
  | lit (value : Word)
  | reg (index : Fin 8)
  deriving DecidableEq, Repr

namespace Arg

/-- Numbers stand for themselves, the eight words after the last number for the
registers, and the rest for nothing. -/
def ofWord? (word : Word) : Option Arg :=
  if word < modulus then some (.lit word)
  else if word < modulus + 8 then some (.reg (Fin.ofNat 8 (word - modulus).toNat))
  else none

def text : Arg → String
  | lit n => s!"{n.toNat}"
  | reg r => s!"r{r.val}"

end Arg

inductive Instruction where
  | halt
  | set (dst a : Arg)
  | push (a : Arg)
  | pop (dst : Arg)
  | eq (dst a b : Arg)
  | gt (dst a b : Arg)
  | jmp (target : Arg)
  | jt (a target : Arg)
  | jf (a target : Arg)
  | add (dst a b : Arg)
  | mult (dst a b : Arg)
  | mod (dst a b : Arg)
  | and (dst a b : Arg)
  | or (dst a b : Arg)
  | not (dst a : Arg)
  | rmem (dst address : Arg)
  | wmem (address a : Arg)
  | call (target : Arg)
  | ret
  | out (a : Arg)
  | inp (dst : Arg)
  | noop
  deriving DecidableEq, Repr

namespace Instruction

def op : Instruction → Op
  | halt => .halt
  | set .. => .set
  | push .. => .push
  | pop .. => .pop
  | eq .. => .eq
  | gt .. => .gt
  | jmp .. => .jmp
  | jt .. => .jt
  | jf .. => .jf
  | add .. => .add
  | mult .. => .mult
  | mod .. => .mod
  | and .. => .and
  | or .. => .or
  | not .. => .not
  | rmem .. => .rmem
  | wmem .. => .wmem
  | call .. => .call
  | ret => .ret
  | out .. => .out
  | inp .. => .inp
  | noop => .noop

/-- The arguments in the order in which they follow the operation. -/
def args : Instruction → List Arg
  | halt | ret | noop => []
  | push a | pop a | jmp a | call a | out a | inp a => [a]
  | set a b | jt a b | jf a b | not a b | rmem a b | wmem a b => [a, b]
  | eq a b c | gt a b c | add a b c | mult a b c | mod a b c | and a b c | or a b c => [a, b, c]

/-- How many words the instruction takes. -/
def length (i : Instruction) : Nat := 1 + i.args.length

end Instruction

/-- The register that an operation stores to, if its argument names one. -/
def Op.dst (op : Op) : Arg → Except Fault (Fin 8)
  | .reg r => .ok r
  | .lit _ => .error (.unrecognizedOpcode op.code .root)

/-- The register that an instruction's first argument names. -/
def Instruction.dst (i : Instruction) : Except Fault (Fin 8) :=
  match i.args with
  | arg :: _ => i.op.dst arg
  | [] => .error (.unrecognizedOpcode i.op.code .root)

/-! ## Text -/

/-- The argument of `out` is shown as a character if it is a visible one or a
line feed. -/
def charText : Arg → String
  | .lit c =>
    if c = 10 then "'\\n'"
    else if 0x20 ≤ c ∧ c < 0x7f then String.ofList ['\'', Char.ofNat c.toNat, '\'']
    else (Arg.lit c).text
  | a => a.text

def Instruction.text (i : Instruction) : String :=
  let args := i.args.map (if i.op = .out then charText else Arg.text)
  match args with
  | [] => i.op.name
  | _ => s!"{i.op.name} " ++ ", ".intercalate args

/-! ## Decoding -/

/-- The instruction at the start of a stream. It fails at the first word that is
not an operation or not an argument, and always blames the operation. -/
def decode (s : Stream Word) : Except Undecodable (Decoded Instruction) :=
  match Op.ofCode? (s 0).toNat with
  | none => bad 0
  | some op =>
    match op with
    | .halt => done .halt
    | .set => two .set
    | .push => one .push
    | .pop => one .pop
    | .eq => three .eq
    | .gt => three .gt
    | .jmp => one .jmp
    | .jt => two .jt
    | .jf => two .jf
    | .add => three .add
    | .mult => three .mult
    | .mod => three .mod
    | .and => three .and
    | .or => three .or
    | .not => two .not
    | .rmem => two .rmem
    | .wmem => two .wmem
    | .call => one .call
    | .ret => done .ret
    | .out => one .out
    | .inp => one .inp
    | .noop => done .noop
where
  /-- Failure after the given number of arguments. -/
  bad (args : Nat) : Except Undecodable (Decoded Instruction) :=
    .error ⟨s 0, .root, 1 + args, 1⟩
  done (i : Instruction) : Except Undecodable (Decoded Instruction) :=
    .ok ⟨i, .root, lowByte (s 0), i.length, 1⟩
  /-- An instruction of one argument. -/
  one (make : Arg → Instruction) : Except Undecodable (Decoded Instruction) :=
    match Arg.ofWord? (s 1) with
    | none => bad 1
    | some a => done (make a)
  /-- An instruction of two arguments. -/
  two (make : Arg → Arg → Instruction) : Except Undecodable (Decoded Instruction) :=
    match Arg.ofWord? (s 1) with
    | none => bad 1
    | some a =>
      match Arg.ofWord? (s 2) with
      | none => bad 2
      | some b => done (make a b)
  /-- An instruction of three arguments. -/
  three (make : Arg → Arg → Arg → Instruction) : Except Undecodable (Decoded Instruction) :=
    match Arg.ofWord? (s 1) with
    | none => bad 1
    | some a =>
      match Arg.ofWord? (s 2) with
      | none => bad 2
      | some b =>
        match Arg.ofWord? (s 3) with
        | none => bad 3
        | some c => done (make a b c)

end Retrocore.Synacor
