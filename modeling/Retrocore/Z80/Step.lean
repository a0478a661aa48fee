import Retrocore.Z80.Cycles
import Retrocore.Z80.Decode
import Retrocore.Z80.Machine

/-!
# Running the Z80

`execute` is the effect of one instruction, and `step` what the processor does
next: it services a non-maskable interrupt, or a maskable one if it may, stays
halted, or runs the instruction at the program counter.
-/

namespace Retrocore.Z80.Machine

variable {μ δ : Type} [Mapper μ Byte]

/-- An operation on the accumulator. -/
def accumulate (m : Machine μ δ) (op : AluOp) (v : Byte) : Machine μ δ :=
  let (a, flags) := m.flags.alu op m.regs.a v
  { m with regs.a := a, flags }

def rotateA (m : Machine μ δ) (op : RotateOp) : Machine μ δ :=
  let (a, carry) := op.apply m.flags.carry m.regs.a
  { m with regs.a := a, flags := m.flags.accumulatorRotate a carry }

/-- Stores a result to its place and, for some instructions on indexed cells, to
a register too. -/
def assignCopy (m : Machine μ δ) (target : Place) (copy : Option Reg) (v : Byte) : Machine μ δ :=
  let m := m.assign target v
  match copy with
  | none => m
  | some which => m.setReg which v

/-- Loading the accumulator from I or R is the only load that sets flags; it
shows `iff2`. -/
def loadFlags (m : Machine μ δ) (dst : Place) (src : Operand) (v : Byte) : Flags :=
  match dst, src with
  | .reg .a, .place (.reg .i) | .reg .a, .place (.reg .r) =>
    { m.flags.withSZXY v with halfCarry := false, subtract := false, parity := m.iff2 }
  | _, _ => m.flags

/-- Whether a branch is taken. A branch without a condition always is. -/
def taken (m : Machine μ δ) (when? : Option Condition) : Bool := when?.all m.flags.satisfy

/-- What a branch that was taken costs on top: nothing if it had no
condition. -/
def surcharge (when? : Option Condition) (cycles : Nat) : Nat := if when?.isSome then cycles else 0

/-- Exchanges the accumulator and flags with their shadows. -/
def exchangeAF (m : Machine μ δ) : Machine μ δ :=
  { m with
    regs.a := m.regs.shadow.a
    regs.shadow.a := m.regs.a
    regs.shadow.flags := m.flags
    flags := m.regs.shadow.flags }

/-- Exchanges BC, DE and HL with their shadows. -/
def exchangeBank (m : Machine μ δ) : Machine μ δ :=
  let r := m.regs
  let s := r.shadow
  { m with
    regs := { r with
      b := s.b, c := s.c, d := s.d, e := s.e, h := s.h, l := s.l
      shadow := { s with b := r.b, c := r.c, d := r.d, e := r.e, h := r.h, l := r.l } } }

/-- Stores the new cell at HL and the new accumulator of a digit rotation. -/
def rotateDigit (m : Machine μ δ) (cell a : Byte) : Machine μ δ :=
  { m.store m.regs.hl cell with
    regs.a := a
    flags := { m.flags.withSZPXY a with halfCarry := false, subtract := false } }

/-- Rotates the digits of the cell at HL to the left through the low digit of
the accumulator. -/
def rotateDigitLeft (m : Machine μ δ) : Machine μ δ :=
  let (v, m) := m.read m.regs.hl
  let high : Byte := m.regs.a &&& 0xf0
  let low : Byte := m.regs.a &&& 0x0f
  m.rotateDigit (v <<< 4 ||| low) (high ||| v >>> 4)

/-- Rotates the digits of the cell at HL to the right through the low digit of
the accumulator. -/
def rotateDigitRight (m : Machine μ δ) : Machine μ δ :=
  let (v, m) := m.read m.regs.hl
  let high : Byte := m.regs.a &&& 0xf0
  let low : Byte := v &&& 0x0f
  m.rotateDigit (m.regs.a <<< 4 ||| v >>> 4) (high ||| low)

/-! ## Block instructions -/

/-- The next address of a block. -/
def Block.next (b : Block) (address : Word) : Word := if b.down then address - 1 else address + 1

/-- A repeating block instruction that is not done goes back to itself. -/
def again (m : Machine μ δ) (b : Block) (more : Bool) : Ran (Machine μ δ) :=
  if b.repeating && more then ⟨m.jump (m.regs.pc - 2), .ok Cycles.blockRepeat⟩ else .free m

/-- Copies a byte from HL to DE and counts BC down. -/
def blockLoad (m : Machine μ δ) (b : Block) : Ran (Machine μ δ) :=
  let hl := m.regs.hl
  let de := m.regs.de
  let bc := m.regs.bc - 1
  let (v, m) := m.read hl
  let flags : Flags := { m.flags with halfCarry := false, subtract := false, parity := bc != 0 }
  let m := m.store de v
  let m := ((m.setPair .hl (Block.next b hl)).setPair .de (Block.next b de)).setPair .bc bc
  { m with flags := flags.withBlockXY (v + m.regs.a) }.again b (bc != 0)

/-- Compares the accumulator with the byte at HL and counts BC down. -/
def blockCompare (m : Machine μ δ) (b : Block) : Ran (Machine μ δ) :=
  let hl := m.regs.hl
  let bc := m.regs.bc - 1
  let (v, m) := m.read hl
  let (res, flags) := Flags.sub8 m.regs.a v false
  let flags := { flags with carry := m.flags.carry, parity := bc != 0 }
  let m := (m.setPair .hl (Block.next b hl)).setPair .bc bc
  let leak := res - bitByte flags.halfCarry
  { m with flags := flags.withBlockXY leak }.again b (bc != 0 && res != 0)

/-- The flags of block input and output: those of the count, and the sign of the
byte moved. -/
def blockPortFlags (m : Machine μ δ) (count v : Byte) : Flags :=
  { m.flags.withSZXY count with subtract := v.bit 7 }

variable [Observer δ Byte Byte]

/-- Moves a byte from port C to HL and counts B down. -/
def blockIn (m : Machine μ δ) (b : Block) : Ran (Machine μ δ) :=
  match m.ports.read m.regs.c with
  | (ports, .error fault) => ⟨{ m with ports }, .error fault⟩
  | (ports, .ok v) =>
    let hl := m.regs.hl
    let count := m.regs.b - 1
    let flags := m.blockPortFlags count v
    let m := ({ m with ports }.store hl v).setPair .hl (Block.next b hl)
    { m with regs.b := count, flags }.again b (count != 0)

/-- Counts B down and moves a byte from HL to port C. -/
def blockOut (m : Machine μ δ) (b : Block) : Ran (Machine μ δ) :=
  let hl := m.regs.hl
  let (v, m) := m.read hl
  let count := m.regs.b - 1
  let m := { m with regs.b := count }
  match m.ports.write m.regs.c v with
  | (ports, .error fault) => ⟨{ m with ports }, .error fault⟩
  | (ports, .ok ()) =>
    let flags := m.blockPortFlags count v
    let m := { m with ports, flags }.setPair .hl (Block.next b hl)
    m.again b (count != 0)

/-- One round of a block instruction. -/
def blockRound (m : Machine μ δ) (b : Block) : Ran (Machine μ δ) :=
  match b.kind with
  | .ld => m.blockLoad b
  | .cp => m.blockCompare b
  | .inp => m.blockIn b
  | .out => m.blockOut b

/-! ## Instructions -/

/-- The machine after an instruction that has just been read, and what it added
to its base cost. The program counter is already behind the instruction. -/
def execute (m : Machine μ δ) : Instruction → Ran (Machine μ δ)
  | .nop => .free m
  | .halt => .free { m with halted := true }
  | .ld dst src =>
    let (v, m) := m.operand src
    let flags := m.loadFlags dst src v
    .free ({ m with flags }.assign dst v)
  | .ldPair p v => .free (m.setPair p v)
  | .loadPair p address =>
    let (v, m) := m.readWord address
    .free (m.setPair p v)
  | .storePair address p => .free (m.storeWord address (m.pair p))
  | .ldSp p => .free (m.setPair .sp (m.pair p))
  | .push p => .free (m.push (m.pair p))
  | .pop p =>
    let (v, m) := m.pop
    .free (m.setPair p v)
  | .exAf => .free m.exchangeAF
  | .exx => .free m.exchangeBank
  | .exDeHl =>
    let de := m.regs.de
    .free ((m.setPair .de m.regs.hl).setPair .hl de)
  | .exSp p =>
    let (v, m) := m.readWord m.regs.sp
    .free ((m.storeWord m.regs.sp (m.pair p)).setPair p v)
  | .alu op src =>
    let (v, m) := m.operand src
    .free (m.accumulate op v)
  | .inc target =>
    let (v, m) := m.load target
    let (v, flags) := m.flags.inc8 v
    .free ({ m with flags }.assign target v)
  | .dec target =>
    let (v, m) := m.load target
    let (v, flags) := m.flags.dec8 v
    .free ({ m with flags }.assign target v)
  | .incPair p => .free (m.setPair p (m.pair p + 1))
  | .decPair p => .free (m.setPair p (m.pair p - 1))
  | .addPair dst src =>
    let (v, flags) := m.flags.add16 (m.pair dst) (m.pair src)
    .free ({ m with flags }.setPair dst v)
  | .adcHl p =>
    let (v, flags) := Flags.adc16 m.regs.hl (m.pair p) m.flags.carry
    .free ({ m with flags }.setPair .hl v)
  | .sbcHl p =>
    let (v, flags) := Flags.sbc16 m.regs.hl (m.pair p) m.flags.carry
    .free ({ m with flags }.setPair .hl v)
  | .rlca => .free (m.rotateA .rlc)
  | .rrca => .free (m.rotateA .rrc)
  | .rla => .free (m.rotateA .rl)
  | .rra => .free (m.rotateA .rr)
  | .daa =>
    let (a, flags) := m.flags.daa m.regs.a
    .free { m with regs.a := a, flags }
  | .cpl =>
    let a := ~~~m.regs.a
    .free { m with
      regs.a := a
      flags := { m.flags with halfCarry := true, subtract := true }.withXY a }
  | .scf =>
    let flags := { m.flags with carry := true, halfCarry := false, subtract := false }
    .free { m with flags := flags.withXY m.regs.a }
  | .ccf =>
    let carry := m.flags.carry
    let flags := { m.flags with carry := !carry, halfCarry := carry, subtract := false }
    .free { m with flags := flags.withXY m.regs.a }
  | .neg =>
    let (a, flags) := Flags.sub8 0 m.regs.a false
    .free { m with regs.a := a, flags }
  | .rot op target copy =>
    let (v, m) := m.load target
    let (v, carry) := op.apply m.flags.carry v
    .free ({ m with flags := .rotate v carry }.assignCopy target copy v)
  | .bit n target =>
    let (v, m) := m.load target
    let leak := (m.addressOf target).elim v highByte
    .free { m with flags := m.flags.bit n v leak }
  | .res n target copy =>
    let (v, m) := m.load target
    .free (m.assignCopy target copy (v.withBit n false))
  | .set n target copy =>
    let (v, m) := m.load target
    .free (m.assignCopy target copy (v.withBit n true))
  | .rld => .free m.rotateDigitLeft
  | .rrd => .free m.rotateDigitRight
  | .jp cc address => .free (if m.taken cc then m.jump address else m)
  | .jpAt p => .free (m.jump (m.pair p))
  | .jr cc d =>
    if m.taken cc then ⟨m.jump (m.regs.pc + signExtend d), .ok (surcharge cc Cycles.jrTaken)⟩
    else .free m
  | .djnz d =>
    let count := m.regs.b - 1
    let m := { m with regs.b := count }
    if count != 0 then ⟨m.jump (m.regs.pc + signExtend d), .ok Cycles.jrTaken⟩ else .free m
  | .call cc address =>
    if m.taken cc then ⟨m.callTo address, .ok (surcharge cc Cycles.callTaken)⟩ else .free m
  | .ret cc => if m.taken cc then ⟨m.goBack, .ok (surcharge cc Cycles.retTaken)⟩ else .free m
  | .reti => .free m.goBack
  | .retn => .free { m.goBack with iff1 := m.iff2 }
  | .rst address => .free (m.callTo address.toUInt16)
  | .inImm port =>
    match m.ports.read port with
    | (ports, .ok v) => .free { m with ports, regs.a := v }
    | (ports, .error fault) => ⟨{ m with ports }, .error fault⟩
  | .inC dst =>
    match m.ports.read m.regs.c with
    | (ports, .ok v) =>
      let flags := { m.flags.withSZPXY v with halfCarry := false, subtract := false }
      let m := { m with ports, flags }
      .free (dst.elim m (m.setReg · v))
    | (ports, .error fault) => ⟨{ m with ports }, .error fault⟩
  | .outImm port =>
    let (ports, result) := m.ports.write port m.regs.a
    ⟨{ m with ports }, result.map fun _ => 0⟩
  | .outC src =>
    let (ports, result) := m.ports.write m.regs.c (src.elim 0 m.reg)
    ⟨{ m with ports }, result.map fun _ => 0⟩
  | .di => .free { m with iff1 := false, iff2 := false }
  | .ei => .free { m with iff1 := true, iff2 := true }
  | .im mode => .free { m with mode := .ofNumber mode }
  | .block b => m.blockRound b

/-! ## Steps -/

/-- What the processor does next. -/
inductive Action where
  /-- Services the non-maskable interrupt. -/
  | nmi
  /-- Services an interrupt with the given byte. -/
  | service (byte : Byte)
  | idle
  | run
  deriving DecidableEq, Repr

def action (m : Machine μ δ) : Action :=
  if m.nmiPending then .nmi
  else
    match m.iff1, m.pending with
    | true, some byte => .service byte
    | _, _ => if m.halted then .idle else .run

/-- What the cells give when they are read at the program counter. -/
def fetched (m : Machine μ δ) : Except Undecodable (Decoded Instruction) :=
  decode (m.memory.stream m.regs.pc)

/-- What an opcode means when a device supplies it and the cells that are read
at the program counter follow. -/
def supplied (m : Machine μ δ) (opcode : Byte) : Except Undecodable (Decoded Instruction) :=
  decode (Stream.cons opcode (m.memory.stream m.regs.pc))

/-- Reads so many cells at the program counter, which stays where it is. -/
def readAhead (m : Machine μ δ) (cells : Nat) : Machine μ δ :=
  { m with memory := m.memory.afterReads m.regs.pc cells }

/-- Reads so many cells at the program counter and moves it over them. -/
def advance (m : Machine μ δ) (cells : Nat) : Machine μ δ :=
  (m.readAhead cells).jump (m.regs.pc + UInt16.ofNat cells)

/-- Calls the handler of the non-maskable interrupt. The maskable one is shut
off meanwhile. -/
def serviceNmi (m : Machine μ δ) : Machine μ δ :=
  ({ m with nmiPending := false, halted := false, iff1 := false, iff2 := m.iff1 }.refresh 1).callTo
    nmiVector

/-- Services a maskable interrupt in the current mode. In mode zero the byte is
an instruction, whose operands are read at the program counter; the cells read
are passed over even if it means nothing. In mode two the byte leads to an entry
of a table of handlers. -/
def service (m : Machine μ δ) (byte : Byte) : Ran (Machine μ δ) :=
  let instruction? := m.supplied byte
  let m := { m with iff1 := false, iff2 := false, halted := false, pending := none }
  match m.mode with
  | .zero =>
    match instruction? with
    | .ok d =>
      (((m.advance (d.length - 1)).refresh d.fetches).execute d.instruction).costing
        Cycles.interruptMode0
    | .error u => ⟨(m.advance (u.length - 1)).refresh u.fetches, .error u.fault⟩
  | .one => ⟨(m.refresh 1).callTo modeOneVector, .ok Cycles.interruptMode1⟩
  | .two =>
    let (target, m) := (m.refresh 1).readWord (wordOf m.regs.i byte)
    ⟨m.callTo target, .ok Cycles.interruptMode2⟩

/-- Where the cells stand for nothing, the program counter stays in front of
them. -/
def step (m : Machine μ δ) : Ran (Machine μ δ) :=
  match m.action with
  | .nmi => ⟨m.serviceNmi, .ok Cycles.nmi⟩
  | .service byte => m.service byte
  | .idle => ⟨m.refresh 1, .ok Cycles.halted⟩
  | .run =>
    match m.fetched with
    | .ok d => (((m.advance d.length).refresh d.fetches).execute d.instruction).plus (Cycles.of d)
    | .error u => ⟨(m.readAhead u.length).refresh u.fetches, .error u.fault⟩

instance : Core (Machine μ δ) where
  step := step
  pc m := m.regs.pc
  canRun := canRun
  isHalted m := m.halted
  interruptsEnabled m := m.iff1
  interrupt := interrupt
  reset := reset
  start := start
  stop := stop
  registers m :=
    let r := m.regs
    let s := r.shadow
    [("af", m.pair .af), ("bc", r.bc), ("de", r.de), ("hl", r.hl), ("ix", r.ix), ("iy", r.iy),
     ("sp", r.sp), ("pc", r.pc), ("i", r.i.toUInt16), ("r", r.r.toUInt16),
     ("af'", wordOf s.a s.flags.toByte), ("bc'", wordOf s.b s.c), ("de'", wordOf s.d s.e),
     ("hl'", wordOf s.h s.l)]
  flags m :=
    let f := m.flags
    [("s", f.sign), ("z", f.zero), ("y", f.y), ("h", f.halfCarry), ("x", f.x), ("p", f.parity),
     ("n", f.subtract), ("c", f.carry)]

end Retrocore.Z80.Machine
