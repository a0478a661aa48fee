import Retrocore.Proofs.Z80.Prefixed
import Retrocore.Z80.Step

/-!
# IX and IY are interchangeable

Nothing tells the two index registers apart but the byte that announces them.
Decoding behind FD gives what decoding behind DD gives, with IY in the place of
IX (`decodeIndexed_forIndex`). And the instructions treat both alike: if the
registers are exchanged in an instruction and in the machine that runs it, they
are exchanged in the machine that it leaves, and that is all
(`execute_swapped`). `index_registers_interchangeable` says both, the second
with the costs.

The argument goes from the bottom up: every access of `Machine` commutes with
the exchange, and an instruction reads and writes through these alone.
-/

namespace Retrocore.Z80

/-- Index registers in the place of index registers. -/
def Renaming.forIndex (f : Index → Index) : Renaming where
  reg
    | .ixh => (f .ix).high
    | .ixl => (f .ix).low
    | .iyh => (f .iy).high
    | .iyl => (f .iy).low
    | which => which
  pair
    | .ix => (f .ix).pair
    | .iy => (f .iy).pair
    | p => p
  index := f

/-! ## Decoding -/

section

variable (f : Index → Index)

/-- The eight registers of the opcode fields do not contain the halves of IX and IY. -/
theorem Reg.forIndex_ofCode (code : Nat) :
    (Renaming.forIndex f).reg (Reg.ofCode code) = Reg.ofCode code := by
  rcases code with _ | _ | _ | _ | _ | _ | code <;> rfl

/-- An index register as a pair takes its new name. -/
theorem Index.forIndex_pair (x : Index) : (Renaming.forIndex f).pair x.pair = (f x).pair := by
  cases x <;> rfl

/-- A field that names a pair names the other index register behind the other prefix. -/
theorem Pair.ofCode_forIndex (x : Index) (code : Nat) :
    Pair.ofCode (some (f x)) code = (Renaming.forIndex f).pair (Pair.ofCode (some x) code) := by
  rcases code with _ | _ | _ | code
  case succ.succ.zero => exact (x.forIndex_pair f).symm
  all_goals rfl

/-- So does a field that names a pair to push or pop. -/
theorem Pair.ofStackCode_forIndex (x : Index) (code : Nat) :
    Pair.ofStackCode (some (f x)) code =
      (Renaming.forIndex f).pair (Pair.ofStackCode (some x) code) := by
  unfold Pair.ofStackCode
  split
  next => rfl
  next => exact Pair.ofCode_forIndex f x code

/-- And a field that names a place, be it a half of the index register or an indexed
cell. -/
theorem Place.ofCode_forIndex (x : Index) (d : Byte) (code : Nat) :
    Place.ofCode (some (f x)) d code = (Place.ofCode (some x) d code).rename (.forIndex f) := by
  unfold Place.ofCode
  split
  next => cases x <;> rfl
  next => cases x <;> rfl
  next => rfl
  next => exact congrArg Place.reg (Reg.forIndex_ofCode f code).symm

/-- The other prefix makes no other difference to the root table. -/
theorem decodeRoot_forIndex (x : Index) (opcode : Byte) (s : Stream Byte) :
    decodeRoot (some (f x)) opcode s =
      ((decodeRoot (some x) opcode s).1.rename (.forIndex f), (decodeRoot (some x) opcode s).2) := by
  have hbase : Pair.hlOr (some (f x)) = (Renaming.forIndex f).pair (Pair.hlOr (some x)) :=
    (x.forIndex_pair f).symm
  have hcells : distanceCells (some (f x)) = distanceCells (some x) := rfl
  unfold decodeRoot
  dsimp only
  generalize Fields.of opcode = fields
  obtain ⟨fx, fy, fz, fp, fq⟩ := fields
  dsimp only
  repeat' split
  -- where an operand follows from a field, so does its new name; a register
  -- beside a cell at a distance is a plain one and keeps its name
  all_goals
    first
    | rfl
    | simp only [hbase, hcells, Pair.ofCode_forIndex, Pair.ofStackCode_forIndex,
        Place.ofCode_forIndex, Instruction.rename, Operand.rename, Place.rename,
        Reg.forIndex_ofCode]

/-- The bit table works on whatever place it is given. -/
theorem decodeBits_forIndex (opcode : Byte) (target : Place) (copy : Option Reg) :
    decodeBits opcode (target.rename (.forIndex f)) (copy.map (Renaming.forIndex f).reg) =
      (decodeBits opcode target copy).rename (.forIndex f) := by
  unfold decodeBits
  dsimp only
  split <;> rfl

/-- What a prefix announces is all there is to the index register that is
decoded. -/
theorem decodeIndexed_forIndex (x : Index) (s : Stream Byte) :
    decodeIndexed (f x) s =
      (decodeIndexed x s).map (Decoded.map (Instruction.rename (.forIndex f))) := by
  unfold decodeIndexed
  split
  next =>
    have hcopy : (if s 2 % 8 = 6 then none else some (Reg.ofCode (s 2 % 8).toNat)).map
        (Renaming.forIndex f).reg =
          if s 2 % 8 = 6 then none else some (Reg.ofCode (s 2 % 8).toNat) := by
      split
      next => rfl
      next => exact congrArg some (Reg.forIndex_ofCode f _)
    have hbits := decodeBits_forIndex f (s 2) (.idx x (s 1))
      (if s 2 % 8 = 6 then none else some (Reg.ofCode (s 2 % 8).toNat))
    rw [hcopy] at hbits
    exact congrArg (fun i => Except.ok (Decoded.mk i .indexedBits (s 2) 4 2)) hbits
  next => rfl
  next => rfl
  next => rfl
  next =>
    rw [decodeRoot_forIndex f x]
    rfl

end

/-! ## Costs -/

namespace Cycles

variable (ρ : Renaming)

/-- The bit table distinguishes registers from cells, which keep to themselves. -/
theorem bits_rename (i : Instruction) : bits (i.rename ρ) = bits i := by
  cases i with
  | bit n target => cases target <;> rfl
  | rot op target copy => cases target <;> rfl
  | res n target copy => cases target <;> rfl
  | set n target copy => cases target <;> rfl
  | _ => rfl

/-- The extended table has no index registers. -/
theorem extended_rename (i : Instruction) : extended (i.rename ρ) = extended i := by
  cases i <;> rfl

/-- Indexed cells cost the same with either register. -/
theorem indexing_rename (i : Instruction) : indexing (i.rename ρ) = indexing i := by
  cases i with
  | ld dst src =>
    cases src with
    | imm v => cases dst <;> rfl
    | place p => cases dst <;> cases p <;> rfl
  | alu op src =>
    cases src with
    | imm v => rfl
    | place p => cases p <;> rfl
  | inc target => cases target <;> rfl
  | dec target => cases target <;> rfl
  | _ => rfl

theorem indexedBits_rename (i : Instruction) : indexedBits (i.rename ρ) = indexedBits i := by
  cases i <;> rfl

/-- Names make no difference to the cost. -/
theorem of_rename (d : Decoded Instruction) :
    Cycles.of (d.map (Instruction.rename ρ)) = Cycles.of d := by
  obtain ⟨i, table, opcode, length, fetches⟩ := d
  cases table with
  | root => rfl
  | bits => exact bits_rename ρ i
  | extended => exact extended_rename ρ i
  | indexed => exact congrArg (root opcode + 4 + ·) (indexing_rename ρ i)
  | indexedBits => exact indexedBits_rename ρ i

end Cycles

/-! ## Exchanging the index registers -/

def Index.other : Index → Index
  | ix => .iy
  | iy => .ix

/-- IX and IY in the place of each other. -/
def Renaming.swap : Renaming := .forIndex Index.other

namespace Machine

variable {μ δ : Type} (m : Machine μ δ)

/-- The machine with the contents of IX and IY exchanged. -/
def swapped : Machine μ δ := { m with regs.ix := m.regs.iy, regs.iy := m.regs.ix }

/-- A register under its new name contains what it contained under the old. -/
theorem reg_swapped (which : Reg) : m.swapped.reg (Renaming.swap.reg which) = m.reg which := by
  cases which <;> rfl

theorem pair_swapped (p : Pair) : m.swapped.pair (Renaming.swap.pair p) = m.pair p := by
  cases p <;> rfl

/-- The same cell is meant, with the displacement added to the same word. -/
theorem addressOf_swapped (p : Place) : m.swapped.addressOf (p.rename .swap) = m.addressOf p := by
  cases p with
  | reg which => rfl
  | «at» p => exact congrArg some (m.pair_swapped p)
  | idx index d => cases index <;> rfl
  | cell address => rfl

/-- Only I and R are seen in the flags when they are loaded. -/
theorem loadFlags_swapped (dst : Place) (src : Operand) (v : Byte) :
    m.swapped.loadFlags (dst.rename .swap) (src.rename .swap) v = m.loadFlags dst src v := by
  cases dst with
  | reg target =>
    cases src with
    | place p =>
      cases p with
      | reg which => cases target <;> cases which <;> rfl
      | _ => cases target <;> rfl
    | imm v => cases target <;> rfl
  | _ => rfl

/-- Conditions ask for flags, which stay. -/
theorem taken_swapped (when? : Option Condition) : m.swapped.taken when? = m.taken when? := rfl

variable [Mapper μ Byte]

/-- The same place is looked at, and the memory takes note of the same reads. -/
theorem lookAt_swapped (p : Place) : m.swapped.lookAt (p.rename .swap) = m.lookAt p := by
  have haddress := m.addressOf_swapped p
  cases p with
  | reg which => exact congrArg (·, m.memory) (m.reg_swapped which)
  | _ => exact congrArg (fun address? => m.memory.read (address?.getD 0)) haddress

/-- What is loaded from a place is the same, and its memory is left with the registers
exchanged. -/
theorem load_swapped (p : Place) :
    m.swapped.load (p.rename .swap) = ((m.load p).1, (m.load p).2.swapped) := by
  unfold load
  rw [m.lookAt_swapped p]
  rfl

/-- An immediate operand has no names in it. -/
theorem operand_swapped (src : Operand) :
    m.swapped.operand (src.rename .swap) = ((m.operand src).1, (m.operand src).2.swapped) := by
  cases src with
  | place p => exact m.load_swapped p
  | imm v => rfl

/-! What is stored is stored crosswise. -/

section

variable {m} {n : Machine μ δ} (h : n = m.swapped)
include h

omit [Mapper μ Byte] in
/-- A register is set under its new name. -/
theorem setReg_swapped (which : Reg) (v : Byte) :
    n.setReg (Renaming.swap.reg which) v = (m.setReg which v).swapped := by
  subst h
  cases which <;> rfl

omit [Mapper μ Byte] in
theorem setPair_swapped (p : Pair) (v : Word) :
    n.setPair (Renaming.swap.pair p) v = (m.setPair p v).swapped := by
  subst h
  cases p <;> rfl

/-- A place is stored to under its new name, or it is the same cell. -/
theorem assign_swapped (p : Place) (v : Byte) :
    n.assign (p.rename .swap) v = (m.assign p v).swapped := by
  have haddress := m.addressOf_swapped p
  cases p with
  | reg which => exact setReg_swapped h which v
  | _ =>
    subst h
    exact congrArg (fun address? => (m.store (address?.getD 0) v).swapped) haddress

/-- The copy that an indexed bit instruction makes goes to one of the eight registers,
which stay. -/
theorem assignCopy_swapped (target : Place) (copy : Option Reg) (v : Byte) :
    n.assignCopy (target.rename .swap) (copy.map Renaming.swap.reg) v =
      (m.assignCopy target copy v).swapped := by
  cases copy with
  | none => exact assign_swapped h target v
  | some which => exact setReg_swapped (assign_swapped h target v) which v

omit [Mapper μ Byte] in
/-- Whether a block instruction goes round again has nothing to do with index
registers. -/
theorem again_swapped (b : Block) (more : Bool) :
    n.again b more = (m.again b more).map swapped := by
  subst h
  unfold again
  split <;> rfl

end

/-! ## Instructions -/

variable [Observer δ Byte Byte]

theorem blockRound_swapped (b : Block) :
    m.swapped.blockRound b = (m.blockRound b).map swapped := by
  unfold blockRound
  cases b.kind with
  | ld =>
    refine again_swapped ?_ b _
    rfl
  | cp =>
    refine again_swapped ?_ b _
    rfl
  | inp =>
    have hports : m.swapped.ports.read m.swapped.regs.c = m.ports.read m.regs.c := rfl
    simp only [blockIn]
    rw [hports]
    cases m.ports.read m.regs.c with
    | mk ports answer =>
    cases answer with
    | ok v =>
      refine again_swapped ?_ b _
      rfl
    | error fault => rfl
  | out =>
    have hread : m.swapped.read m.swapped.regs.hl =
        (m.memory.value m.regs.hl, (m.read m.regs.hl).2.swapped) := rfl
    have hports : (m.read m.regs.hl).2.swapped.ports.write (m.read m.regs.hl).2.swapped.regs.c
        (m.memory.value m.regs.hl) = m.ports.write m.regs.c (m.memory.value m.regs.hl) := rfl
    have hports' : (m.read m.regs.hl).2.ports.write (m.read m.regs.hl).2.regs.c
        (m.read m.regs.hl).1 = m.ports.write m.regs.c (m.memory.value m.regs.hl) := rfl
    simp only [blockOut]
    rw [hread, hports, hports']
    cases m.ports.write m.regs.c (m.memory.value m.regs.hl) with
    | mk ports result =>
    cases result with
    | ok v =>
      refine again_swapped ?_ b _
      rfl
    | error fault => rfl

/-- An instruction with the index registers exchanged, in a machine with their
contents exchanged, does what it did, and leaves the contents exchanged. -/
theorem execute_swapped (i : Instruction) :
    m.swapped.execute (i.rename .swap) = (m.execute i).map swapped := by
  cases i with
  | ld dst src =>
    simp only [Instruction.rename, execute]
    rw [m.operand_swapped src, loadFlags_swapped _ dst src]
    refine congrArg Ran.free (assign_swapped ?_ dst _)
    rfl
  | ldPair p v => exact congrArg Ran.free (setPair_swapped rfl p v)
  | loadPair p address =>
    refine congrArg Ran.free (setPair_swapped ?_ p _)
    rfl
  | storePair address p =>
    simp only [Instruction.rename, execute]
    rw [m.pair_swapped p]
    rfl
  | ldSp p =>
    simp only [Instruction.rename, execute]
    rw [m.pair_swapped p]
    rfl
  | push p =>
    simp only [Instruction.rename, execute]
    rw [m.pair_swapped p]
    rfl
  | pop p =>
    refine congrArg Ran.free (setPair_swapped ?_ p _)
    rfl
  | exSp p =>
    have hpair : (m.swapped.readWord m.swapped.regs.sp).2.pair (Renaming.swap.pair p) =
        (m.readWord m.regs.sp).2.pair p := pair_swapped _ p
    simp only [Instruction.rename, execute]
    rw [hpair]
    refine congrArg Ran.free (setPair_swapped ?_ p _)
    rfl
  | alu op src =>
    simp only [Instruction.rename, execute]
    rw [m.operand_swapped src]
    rfl
  | inc target =>
    simp only [Instruction.rename, execute]
    rw [m.load_swapped target]
    refine congrArg Ran.free (assign_swapped ?_ target _)
    rfl
  | dec target =>
    simp only [Instruction.rename, execute]
    rw [m.load_swapped target]
    refine congrArg Ran.free (assign_swapped ?_ target _)
    rfl
  | incPair p =>
    simp only [Instruction.rename, execute]
    rw [m.pair_swapped p]
    exact congrArg Ran.free (setPair_swapped rfl p _)
  | decPair p =>
    simp only [Instruction.rename, execute]
    rw [m.pair_swapped p]
    exact congrArg Ran.free (setPair_swapped rfl p _)
  | addPair dst src =>
    simp only [Instruction.rename, execute]
    rw [m.pair_swapped dst, m.pair_swapped src]
    refine congrArg Ran.free (setPair_swapped ?_ dst _)
    rfl
  | adcHl p =>
    simp only [Instruction.rename, execute]
    rw [m.pair_swapped p]
    rfl
  | sbcHl p =>
    simp only [Instruction.rename, execute]
    rw [m.pair_swapped p]
    rfl
  | rot op target copy =>
    simp only [Instruction.rename, execute]
    rw [m.load_swapped target]
    refine congrArg Ran.free (assignCopy_swapped ?_ target copy _)
    rfl
  | bit n target =>
    simp only [Instruction.rename, execute]
    rw [m.load_swapped target, addressOf_swapped _ target]
    rfl
  | res n target copy =>
    simp only [Instruction.rename, execute]
    rw [m.load_swapped target]
    exact congrArg Ran.free (assignCopy_swapped rfl target copy _)
  | set n target copy =>
    simp only [Instruction.rename, execute]
    rw [m.load_swapped target]
    exact congrArg Ran.free (assignCopy_swapped rfl target copy _)
  | jpAt p =>
    simp only [Instruction.rename, execute]
    rw [m.pair_swapped p]
    rfl
  | inC dst =>
    have hports : m.swapped.ports.read m.swapped.regs.c = m.ports.read m.regs.c := rfl
    simp only [Instruction.rename, execute]
    rw [hports]
    cases m.ports.read m.regs.c with
    | mk ports answer =>
    cases answer with
    | ok v =>
      cases dst with
      | none => rfl
      | some which =>
        refine congrArg Ran.free (setReg_swapped ?_ which v)
        rfl
    | error fault => rfl
  | outC src =>
    cases src with
    | none => rfl
    | some which =>
      simp only [Instruction.rename, execute, Option.map, Option.elim]
      rw [m.reg_swapped which]
      rfl
  | block b => exact m.blockRound_swapped b
  -- the rest names no operands: branches part by the same question, and inputs
  -- by the same answer
  | jp when? address =>
    simp only [Instruction.rename, execute]
    rw [m.taken_swapped when?]
    split <;> rfl
  | jr when? d =>
    simp only [Instruction.rename, execute]
    rw [m.taken_swapped when?]
    split <;> rfl
  | djnz d =>
    have hb : m.swapped.regs.b = m.regs.b := rfl
    simp only [Instruction.rename, execute]
    rw [hb]
    split <;> rfl
  | call when? address =>
    simp only [Instruction.rename, execute]
    rw [m.taken_swapped when?]
    split <;> rfl
  | ret when? =>
    simp only [Instruction.rename, execute]
    rw [m.taken_swapped when?]
    split <;> rfl
  | inImm port =>
    have hports : m.swapped.ports = m.ports := rfl
    simp only [Instruction.rename, execute]
    rw [hports]
    split <;> rfl
  | _ => rfl

end Machine

/-- **Nothing tells IX and IY apart.** FD announces for IY what DD announces for
IX; and if they are exchanged in an instruction and in the machine, it does what
it did, at the same cost, and leaves them exchanged. -/
theorem index_registers_interchangeable {μ δ : Type} [Mapper μ Byte] [Observer δ Byte Byte] :
    (∀ s : Stream Byte, decode (.cons 0xfd s) =
      (decode (.cons 0xdd s)).map
        (Decoded.map (Instruction.rename (.forIndex fun _ => .iy)))) ∧
    ∀ (m : Machine μ δ) (d : Decoded Instruction),
      (m.swapped.execute (d.instruction.rename .swap)).plus
          (Cycles.of (d.map (Instruction.rename .swap))) =
        ((m.execute d.instruction).plus (Cycles.of d)).map Machine.swapped := by
  constructor
  · intro s
    have hfd : decode (.cons 0xfd s) = decodeIndexed .iy s := decode_announced .iy s
    have hdd : decode (.cons 0xdd s) = decodeIndexed .ix s := decode_announced .ix s
    rw [hfd, hdd]
    exact decodeIndexed_forIndex (fun _ => .iy) .ix s
  · intro m d
    rw [m.execute_swapped d.instruction, Cycles.of_rename]
    rfl

end Retrocore.Z80
