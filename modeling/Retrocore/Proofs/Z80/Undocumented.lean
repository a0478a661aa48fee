import Retrocore.Proofs.Frames.Requests
import Retrocore.Proofs.Operations

/-!
# The undocumented flags of the Z80

X and Y are bits 3 and 5 of F. No condition asks for them, no helper of the
arithmetic reads them, and whatever instruction sets flags either leaves both
alone or takes both from a byte it has at hand. So they are seen by nothing but
PUSH AF, which stores F as it stands.

`Machine.documented` clears them, also in the shadow of F, and two machines are
`Alike` if they are the same then. The argument is that clearing them before an
instruction or after it comes to the same (`execute_documented`), from which it
follows for steps that service requests (`step_documented`) and for runs:
`undocumented_hidden` says of two machines that are alike that all their steps
end in the same way, with the same requests of the ports, and leave them alike.

An `Instruction` could read AF in other ways than by PUSH: compare with the cell
it points at, or count it up. No opcode means any of that (`eq_pushAf_of_decode`).
-/

namespace Retrocore.Z80

/-! ## Flags -/

namespace Flags

variable (f : Flags)

/-- The flags with X and Y cleared. -/
def documented : Flags := { f with y := false, x := false }

/-- X and Y are bits 3 and 5 of the byte. -/
theorem toByte_documented : f.documented.toByte = f.toByte &&& 0xd7 := by
  obtain ⟨s, z, y, h, x, p, n, c⟩ := f
  revert s z y h x p n c
  decide +kernel

/-- Conditions ask for S, Z, P and C alone. -/
theorem satisfy_documented (cc : Condition) : f.documented.satisfy cc = f.satisfy cc := by
  cases cc <;> rfl

/-- Arithmetic takes nothing but C from the flags it finds. -/
theorem alu_documented (op : AluOp) (a v : Byte) : f.documented.alu op a v = f.alu op a v := by
  cases op <;> rfl

end Flags

/-! ## Instructions that read AF -/

/-- The cell is meant that AF points at. -/
def Place.readsAf : Place → Bool
  | .at p => p == .af
  | _ => false

@[simp] theorem Place.readsAf_reg (which : Reg) : (Place.reg which).readsAf = false := rfl

@[simp] theorem Place.readsAf_cell (address : Word) : (Place.cell address).readsAf = false := rfl

@[simp] theorem Place.readsAf_idx (index : Index) (d : Byte) :
    (Place.idx index d).readsAf = false := rfl

/-- Of all cells, the one that AF points at is the only one found through F. -/
@[simp] theorem Place.readsAf_at (p : Pair) : (Place.at p).readsAf = (p == .af) := rfl

def Operand.readsAf : Operand → Bool
  | .place p => p.readsAf
  | .imm _ => false

/-- F is read as a byte, together with the accumulator. -/
def Instruction.readsAf : Instruction → Bool
  | .ld dst src => dst.readsAf || src.readsAf
  | .storePair _ p | .ldSp p | .push p | .exSp p | .incPair p | .decPair p | .adcHl p | .sbcHl p
  | .jpAt p => p == .af
  | .addPair dst src => dst == .af || src == .af
  | .alu _ src => src.readsAf
  | .inc target | .dec target | .rot _ target _ | .bit _ target | .res _ target _
  | .set _ target _ => target.readsAf
  | _ => false

/-- Neither HL nor what an index prefix puts in its place is AF. -/
theorem Pair.hlOr_ne_af (index : Option Index) : Pair.hlOr index ≠ .af := by
  obtain _ | _ | _ := index <;> decide

/-- The two bits that name a pair never name AF. -/
theorem Pair.ofCode_ne_af (index : Option Index) (code : Nat) : Pair.ofCode index code ≠ .af := by
  unfold Pair.ofCode
  split
  next => decide
  next => decide
  next => exact Pair.hlOr_ne_af index
  next => decide

/-- No place that an opcode can name is found through AF. -/
theorem Place.ofCode_readsAf (index : Option Index) (d : Byte) (code : Nat) :
    (Place.ofCode index d code).readsAf = false := by
  unfold Place.ofCode
  split
  next => rfl
  next => rfl
  next => cases index <;> rfl
  next => rfl

/-- Bit instructions work on a place and read no pair. -/
theorem decodeBits_readsAf (opcode : Byte) {target : Place} (htarget : target.readsAf = false)
    (copy : Option Reg) : (decodeBits opcode target copy).readsAf = false := by
  unfold decodeBits
  dsimp only
  split <;> exact htarget

/-- In the root table PUSH AF alone reads AF. -/
theorem decodeRoot_of_readsAf {index : Option Index} {opcode : Byte} {s : Stream Byte}
    (h : (decodeRoot index opcode s).1.readsAf = true) :
    (decodeRoot index opcode s).1 = .push .af := by
  generalize hd : decodeRoot index opcode s = decoded at h ⊢
  unfold decodeRoot at hd
  dsimp only at hd
  repeat' split at hd
  -- all others than PUSH contradict `h`
  all_goals
    subst hd
    simp [Instruction.readsAf, Operand.readsAf, Pair.hlOr_ne_af, Pair.ofCode_ne_af,
      Place.ofCode_readsAf] at h
  exact congrArg Instruction.push h

/-- Behind the prefix 0xed nothing reads AF. -/
theorem decodeExtended_readsAf {opcode : Byte} {s : Stream Byte} {i : Instruction}
    {operands : Nat} (h : decodeExtended opcode s = some (i, operands)) : i.readsAf = false := by
  unfold decodeExtended at h
  dsimp only at h
  repeat' split at h
  -- opcodes that mean nothing go first
  all_goals
    cases h
  all_goals
    first
    | rfl
    | exact beq_false_of_ne (Pair.ofCode_ne_af none _)

/-- Behind an index prefix PUSH AF alone reads AF, as in the root table. -/
theorem decodeIndexed_of_readsAf {index : Index} {s : Stream Byte} {d : Decoded Instruction}
    (h : decodeIndexed index s = .ok d) (hreads : d.instruction.readsAf = true) :
    d.instruction = .push .af := by
  unfold decodeIndexed at h
  split at h
  next =>
    cases h
    have hbits := decodeBits_readsAf (s 2) (Place.readsAf_idx index (s 1))
    rw [hbits] at hreads
    cases hreads
  next => cases h
  next => cases h
  next => cases h
  next =>
    cases h
    exact decodeRoot_of_readsAf hreads

/-- Of all that can be decoded, PUSH AF alone reads AF. -/
theorem eq_pushAf_of_decode {s : Stream Byte} {d : Decoded Instruction} (h : decode s = .ok d)
    (hreads : d.instruction.readsAf = true) : d.instruction = .push .af := by
  unfold decode at h
  split at h
  next =>
    cases h
    rw [decodeBits_readsAf _ (Place.ofCode_readsAf none 0 _)] at hreads
    cases hreads
  next =>
    split at h
    next heq =>
      cases h
      rw [decodeExtended_readsAf heq] at hreads
      cases hreads
    next => cases h
  next => exact decodeIndexed_of_readsAf h hreads
  next => exact decodeIndexed_of_readsAf h hreads
  next =>
    cases h
    exact decodeRoot_of_readsAf hreads

/-! ## Machines that are alike -/

namespace Machine

variable {μ δ : Type} {m n : Machine μ δ}

/-- The machine with X and Y cleared, also in the shadow of F. -/
def documented (m : Machine μ δ) : Machine μ δ :=
  { m with
    flags := m.flags.documented
    regs.shadow.flags := m.regs.shadow.flags.documented }

/-- They differ in X and Y at most. -/
def Alike (m n : Machine μ δ) : Prop := m.documented = n.documented

/-- Clearing X and Y makes no other difference. -/
theorem alike_documented (m : Machine μ δ) : m.documented.Alike m := rfl

/-- Flags that are the same without X and Y can be put in. -/
theorem alike_flags (m : Machine μ δ) {f g : Flags} (h : f.documented = g.documented) :
    { m.documented with flags := f }.Alike { m with flags := g } :=
  congrArg (fun f => ({ m.documented with flags := f } : Machine μ δ)) h

/-- Ending here without a fault looks the same from both machines. -/
theorem Alike.free (h : m.Alike n) : (Ran.free m).map documented = (Ran.free n).map documented :=
  congrArg Ran.free h

/-- Requests do not look at flags. -/
theorem Alike.interrupt (h : m.Alike n) (byte : Byte) :
    (m.interrupt byte).Alike (n.interrupt byte) :=
  (congrArg (fun k : Machine μ δ => k.interrupt byte) h :)

theorem Alike.interruptNmi (h : m.Alike n) : m.interruptNmi.Alike n.interruptNmi :=
  (congrArg Machine.interruptNmi h :)

/-- No single register contains X and Y. -/
theorem documented_setReg (m : Machine μ δ) (which : Reg) (v : Byte) :
    (m.setReg which v).documented = m.documented.setReg which v := by
  cases which <;> rfl

/-- POP AF sets X and Y like any other flag. -/
theorem documented_setPair (m : Machine μ δ) (p : Pair) (v : Word) :
    (m.setPair p v).documented = (m.documented.setPair p v).documented := by
  cases p <;> rfl

/-- The same value put into the same register leaves them alike. -/
theorem Alike.setReg (h : m.Alike n) (which : Reg) (v : Byte) :
    (m.setReg which v).Alike (n.setReg which v) := by
  unfold Alike
  rw [documented_setReg, documented_setReg, h]

/-- So does the same word put into the same pair, also into AF. -/
theorem Alike.setPair (h : m.Alike n) (p : Pair) (v : Word) :
    (m.setPair p v).Alike (n.setPair p v) := by
  unfold Alike
  rw [documented_setPair m, documented_setPair n, h]

/-- The next round of a block instruction is decided by what has been counted, not by
F. -/
theorem Alike.again (h : m.Alike n) (b : Block) (more : Bool) :
    (m.again b more).map documented = (n.again b more).map documented := by
  have hpc : m.regs.pc = n.regs.pc := congrArg (·.regs.pc) h
  have hjump : ∀ address, (m.jump address).documented = (n.jump address).documented :=
    fun address => congrArg (·.jump address) h
  unfold Machine.again
  split
  next => simp only [Ran.map, hpc, hjump]
  next => exact h.free

variable (m)

theorem reg_documented (which : Reg) : m.documented.reg which = m.reg which := by
  cases which <;> rfl

/-- Pairs are read as before, if they do not contain F. -/
theorem pair_documented {p : Pair} (hp : (p == .af) = false) : m.documented.pair p = m.pair p := by
  cases p with
  | af => cases hp
  | _ => rfl

theorem addressOf_documented {p : Place} (hp : p.readsAf = false) :
    m.documented.addressOf p = m.addressOf p := by
  cases p with
  | reg which => rfl
  | «at» p => exact congrArg some (m.pair_documented hp)
  | idx index d => cases index <;> rfl
  | cell address => rfl

theorem taken_documented (when? : Option Condition) :
    m.documented.taken when? = m.taken when? := by
  cases when? with
  | none => rfl
  | some cc => exact m.flags.satisfy_documented cc

/-- Loading A from I or R sets X and Y anew; any other load leaves flags alone. -/
theorem documented_loadFlags (dst : Place) (src : Operand) (v : Byte) :
    (m.documented.loadFlags dst src v).documented = (m.loadFlags dst src v).documented := by
  unfold loadFlags
  split <;> rfl

/-- An operation on the accumulator finds the same operands and the same carry. -/
theorem accumulate_documented (op : AluOp) (v : Byte) :
    (m.documented.accumulate op v).Alike (m.accumulate op v) := by
  have halu : m.documented.flags.alu op m.documented.regs.a v = m.flags.alu op m.regs.a v :=
    m.flags.alu_documented op m.regs.a v
  unfold Alike accumulate
  rw [halu]
  rfl

variable [Mapper μ Byte]

/-- The same is found at a place, and the memory takes note of the same reads. -/
theorem lookAt_documented {p : Place} (hp : p.readsAf = false) :
    m.documented.lookAt p = m.lookAt p := by
  have haddress := m.addressOf_documented hp
  cases p with
  | reg which => exact congrArg (·, m.memory) (m.reg_documented which)
  | _ => exact congrArg (fun address? => m.memory.read (address?.getD 0)) haddress

/-- So what is loaded is the same, and the machine it leaves differs in X and Y
alone. -/
theorem load_documented {p : Place} (hp : p.readsAf = false) :
    m.documented.load p = ((m.load p).1, (m.load p).2.documented) := by
  unfold load
  rw [m.lookAt_documented hp]
  rfl

/-- An immediate operand stands in the instruction and is the same anyway. -/
theorem operand_documented {src : Operand} (hsrc : src.readsAf = false) :
    m.documented.operand src = ((m.operand src).1, (m.operand src).2.documented) := by
  cases src with
  | place p => exact m.load_documented hsrc
  | imm v => rfl

/-- X and Y can be cleared before a place is stored to or afterwards. -/
theorem documented_assign {p : Place} (hp : p.readsAf = false) (v : Byte) :
    (m.assign p v).documented = m.documented.assign p v := by
  have haddress := m.addressOf_documented hp
  cases p with
  | reg which => exact m.documented_setReg which v
  | _ =>
    simp only [assign]
    rw [haddress]
    rfl

variable {m}

/-- The same byte stored to the same place leaves them alike. -/
theorem Alike.assign (h : m.Alike n) {p : Place} (hp : p.readsAf = false) (v : Byte) :
    (m.assign p v).Alike (n.assign p v) := by
  unfold Alike
  rw [documented_assign m hp, documented_assign n hp, h]

/-- So does a byte that is copied to a register besides. -/
theorem Alike.assignCopy (h : m.Alike n) {target : Place} (htarget : target.readsAf = false)
    (copy : Option Reg) (v : Byte) :
    (m.assignCopy target copy v).Alike (n.assignCopy target copy v) := by
  cases copy with
  | none => exact h.assign htarget v
  | some which => exact (h.assign htarget v).setReg which v

/-! ## Instructions -/

variable (m) [Observer δ Byte Byte]

omit [Mapper μ Byte] in
theorem read_documented :
    m.documented.ports.read m.documented.regs.c = m.ports.read m.regs.c := rfl

/-- A round of a block instruction moves or compares the same byte, and takes X and Y,
where it sets them, from what it has at hand. -/
theorem blockRound_documented (b : Block) :
    (m.documented.blockRound b).map documented = (m.blockRound b).map documented := by
  unfold blockRound
  cases b.kind with
  | ld =>
    refine Alike.again ?_ b _
    rfl
  | cp =>
    refine Alike.again ?_ b _
    rfl
  | inp =>
    simp only [blockIn]
    rw [read_documented]
    cases m.ports.read m.regs.c with
    | mk ports answer =>
    cases answer with
    | ok v =>
      refine Alike.again ?_ b _
      rfl
    | error fault => rfl
  | out =>
    have hread : m.documented.read m.documented.regs.hl =
        (m.memory.value m.regs.hl, (m.read m.regs.hl).2.documented) := rfl
    have hports : (m.read m.regs.hl).2.documented.ports.write
        (m.read m.regs.hl).2.documented.regs.c (m.memory.value m.regs.hl) =
          m.ports.write m.regs.c (m.memory.value m.regs.hl) := rfl
    have hports' : (m.read m.regs.hl).2.ports.write (m.read m.regs.hl).2.regs.c
        (m.read m.regs.hl).1 = m.ports.write m.regs.c (m.memory.value m.regs.hl) := rfl
    simp only [blockOut]
    rw [hread, hports, hports']
    cases m.ports.write m.regs.c (m.memory.value m.regs.hl) with
    | mk ports result =>
    cases result with
    | ok v =>
      refine Alike.again ?_ b _
      rfl
    | error fault => rfl

/-- An instruction that does not read AF does the same whatever X and Y are. -/
theorem execute_documented {i : Instruction} (hi : i.readsAf = false) :
    (m.documented.execute i).map documented = (m.execute i).map documented := by
  cases i with
  | ld dst src =>
    obtain ⟨hdst, hsrc⟩ : dst.readsAf = false ∧ src.readsAf = false := Bool.or_eq_false_iff.mp hi
    simp only [execute]
    rw [m.operand_documented hsrc]
    have hflags := (m.operand src).2.documented_loadFlags dst src (m.operand src).1
    exact ((alike_flags _ hflags).assign hdst _).free
  | ldPair p v => exact (m.alike_documented.setPair p v).free
  | loadPair p address =>
    refine (Alike.setPair ?_ p _).free
    rfl
  | storePair address p =>
    simp only [execute]
    rw [m.pair_documented hi]
    rfl
  | ldSp p =>
    simp only [execute]
    rw [m.pair_documented hi]
    rfl
  | push p =>
    simp only [execute]
    rw [m.pair_documented hi]
    rfl
  | pop p =>
    refine (Alike.setPair ?_ p _).free
    rfl
  | exSp p =>
    have hpair : (m.documented.readWord m.documented.regs.sp).2.pair p =
        (m.readWord m.regs.sp).2.pair p := pair_documented _ hi
    simp only [execute]
    rw [hpair]
    refine (Alike.setPair ?_ p _).free
    rfl
  | alu op src =>
    simp only [execute]
    rw [m.operand_documented hi]
    exact (accumulate_documented _ op _).free
  | inc target =>
    simp only [execute]
    rw [m.load_documented hi]
    refine (Alike.assign ?_ hi _).free
    rfl
  | dec target =>
    simp only [execute]
    rw [m.load_documented hi]
    refine (Alike.assign ?_ hi _).free
    rfl
  | incPair p =>
    simp only [execute]
    rw [m.pair_documented hi]
    exact (m.alike_documented.setPair p _).free
  | decPair p =>
    simp only [execute]
    rw [m.pair_documented hi]
    exact (m.alike_documented.setPair p _).free
  | addPair dst src =>
    obtain ⟨hdst, hsrc⟩ : (dst == .af) = false ∧ (src == .af) = false :=
      Bool.or_eq_false_iff.mp hi
    simp only [execute]
    rw [m.pair_documented hdst, m.pair_documented hsrc]
    refine (Alike.setPair ?_ dst _).free
    rfl
  | adcHl p =>
    simp only [execute]
    rw [m.pair_documented hi]
    rfl
  | sbcHl p =>
    simp only [execute]
    rw [m.pair_documented hi]
    rfl
  | rot op target copy =>
    simp only [execute]
    rw [m.load_documented hi]
    refine (Alike.assignCopy ?_ hi copy _).free
    rfl
  | bit n target =>
    simp only [execute]
    rw [m.load_documented hi, addressOf_documented _ hi]
    rfl
  | res n target copy =>
    simp only [execute]
    rw [m.load_documented hi]
    exact ((alike_documented _).assignCopy hi copy _).free
  | set n target copy =>
    simp only [execute]
    rw [m.load_documented hi]
    exact ((alike_documented _).assignCopy hi copy _).free
  | jp when? address =>
    simp only [execute]
    rw [m.taken_documented when?]
    split <;> rfl
  | jpAt p =>
    simp only [execute]
    rw [m.pair_documented hi]
    rfl
  | jr when? d =>
    simp only [execute]
    rw [m.taken_documented when?]
    split <;> rfl
  | djnz d =>
    have hb : m.documented.regs.b = m.regs.b := rfl
    simp only [execute]
    rw [hb]
    split <;> rfl
  | call when? address =>
    simp only [execute]
    rw [m.taken_documented when?]
    split <;> rfl
  | ret when? =>
    simp only [execute]
    rw [m.taken_documented when?]
    split <;> rfl
  | inImm port =>
    have hports : m.documented.ports = m.ports := rfl
    simp only [execute]
    rw [hports]
    split <;> rfl
  | inC dst =>
    simp only [execute]
    rw [read_documented]
    split
    next =>
      -- without a destination the value only sets flags
      cases dst with
      | none => rfl
      | some which =>
        refine (Alike.setReg ?_ which _).free
        rfl
    next => rfl
  | outC src =>
    cases src with
    | none => rfl
    | some which =>
      simp only [execute, Option.elim]
      rw [m.reg_documented which]
      rfl
  | block b => exact m.blockRound_documented b
  -- the rest is done to both machines in the same way, or overwrites X and Y
  | _ => rfl

/-! ## Steps -/

omit [Observer δ Byte Byte] in
/-- The same instruction comes next. -/
theorem executed?_documented : m.documented.executed? = m.executed? := rfl

omit [Observer δ Byte Byte] in
/-- Fetching it does not look at flags. -/
theorem begun_documented : m.documented.begun = m.begun.documented := by
  have haction : m.documented.action = m.action := rfl
  unfold begun
  rw [haction]
  cases m.action <;> rfl

omit [Observer δ Byte Byte] in
/-- An instruction asks the same of the ports. -/
theorem requestOf?_documented (i : Instruction) :
    m.documented.requestOf? i = m.requestOf? i := by
  cases i with
  | outC src =>
    cases src with
    | none => rfl
    | some which =>
      simp only [requestOf?, Option.elim]
      rw [m.reg_documented which]
      rfl
  | _ => rfl

omit [Observer δ Byte Byte] in
theorem request?_documented : m.documented.request? = m.request? := by
  unfold request?
  rw [executed?_documented, begun_documented]
  exact congrArg (Option.bind m.executed?) (funext m.begun.requestOf?_documented)

variable {m}

omit [Observer δ Byte Byte] in
/-- An instruction that comes from decoding reads AF only if it is PUSH AF. -/
theorem readsAf_of_executed {i : Instruction} (h : m.executed? = some i) (hi : i ≠ .push .af) :
    i.readsAf = false := by
  refine Bool.eq_false_iff.mpr fun hreads => hi ?_
  obtain ⟨_, _, _, _, hdecode, rfl⟩ | ⟨_, _, hdecode, rfl⟩ := read_of_executed h
  all_goals exact eq_pushAf_of_decode hdecode hreads

/-- Calling a handler, staying halted, and failing to decode. -/
theorem step_documented_of_unexecuted (h : m.executed? = none) :
    m.documented.step.map documented = m.step.map documented := by
  cases unexecuted_of_eq_none h with
  | nmi haction =>
    have haction' : m.documented.action = .nmi := haction
    rw [step_of_nmi haction, step_of_nmi haction']
    rfl
  | idle haction =>
    have haction' : m.documented.action = .idle := haction
    rw [step_of_idle haction, step_of_idle haction']
    rfl
  | @unread u haction hfetched =>
    have haction' : m.documented.action = .run := haction
    have hfetched' : m.documented.fetched = .error u := hfetched
    rw [step_of_undecodable haction hfetched, step_of_undecodable haction' hfetched']
    rfl
  | @unsupplied byte u haction hmode hsupplied =>
    have haction' : m.documented.action = .service byte := haction
    have hmode' : m.documented.mode = .zero := hmode
    have hsupplied' : m.documented.supplied byte = .error u := hsupplied
    rw [step_of_supplied_error haction hmode hsupplied,
      step_of_supplied_error haction' hmode' hsupplied', begun_documented]
    rfl
  | @modeOne byte haction hmode =>
    have haction' : m.documented.action = .service byte := haction
    have hmode' : m.documented.mode = .one := hmode
    rw [step_of_modeOne haction hmode, step_of_modeOne haction' hmode']
    rfl
  | @modeTwo byte haction hmode =>
    have haction' : m.documented.action = .service byte := haction
    have hmode' : m.documented.mode = .two := hmode
    rw [step_of_modeTwo haction hmode, step_of_modeTwo haction' hmode']
    rfl

/-- A step that does not run PUSH AF does the same whatever X and Y are. -/
theorem step_documented (hpush : m.executed? ≠ some (.push .af)) :
    m.documented.step.map documented = m.step.map documented := by
  cases hexecuted : m.executed? with
  | none => exact step_documented_of_unexecuted hexecuted
  | some i =>
    have hi := m.begun.execute_documented
      (readsAf_of_executed hexecuted fun hi => hpush (hexecuted.trans (congrArg some hi)))
    obtain ⟨byte, d, haction, hmode, hsupplied, rfl⟩ | ⟨d, haction, hfetched, rfl⟩ :=
      read_of_executed hexecuted
    · have haction' : m.documented.action = .service byte := haction
      have hmode' : m.documented.mode = .zero := hmode
      have hsupplied' : m.documented.supplied byte = .ok d := hsupplied
      rw [step_of_supplied haction hmode hsupplied,
        step_of_supplied haction' hmode' hsupplied', begun_documented]
      exact congrArg (·.costing Cycles.interruptMode0) hi
    · have haction' : m.documented.action = .run := haction
      have hfetched' : m.documented.fetched = .ok d := hfetched
      rw [step_of_read haction hfetched, step_of_read haction' hfetched', begun_documented]
      exact congrArg (·.plus (Cycles.of d)) hi

/-- One step of either machine ends in the same way and leaves them alike, unless it
runs PUSH AF. -/
theorem Alike.step (h : m.Alike n) (hpush : m.executed? ≠ some (.push .af)) :
    m.step.map documented = n.step.map documented := by
  have hpush' : n.executed? ≠ some (.push .af) := by
    rw [← n.executed?_documented, ← h]
    exact hpush
  rw [← step_documented hpush, ← step_documented hpush', h]

omit [Observer δ Byte Byte] in
/-- Two machines that are alike ask the same of the ports, PUSH AF or not. -/
theorem Alike.request? (h : m.Alike n) : m.request? = n.request? := by
  rw [← m.request?_documented, ← n.request?_documented, h]

/-! ## Runs -/

/-- What is seen of a step from outside. -/
structure Outcome where
  /-- What it requests of the ports. -/
  request? : Option (Request Byte Byte)
  /-- What it costs, or how it fails. -/
  result : Except Fault Nat

/-- What is seen of the steps of a run, one after the other. -/
def outcomes (m : Machine μ δ) : List Signal → List Outcome
  | [] => []
  | .step :: run => ⟨m.request?, m.step.result⟩ :: outcomes m.step.state run
  | .interrupt byte :: run => outcomes (m.interrupt byte) run
  | .nmi :: run => outcomes m.interruptNmi run

open Operable

/-- Two machines that differ in X and Y at most cannot be told apart, and differ
in nothing else afterwards, as long as PUSH AF is not run. -/
theorem undocumented_hidden (h : m.Alike n) (run : List Signal)
    (hpush : Each (fun (m : Machine μ δ) o => o.isStep → m.executed? ≠ some (.push .af)) m run) :
    outcomes m run = outcomes n run ∧ (after m run).Alike (after n run) := by
  induction run generalizing m n with
  | nil => exact ⟨rfl, h⟩
  | cons o run ih =>
    obtain ⟨hfirst, hrest⟩ := hpush
    cases o with
    | step =>
      have hsteps := h.step (hfirst rfl)
      have hstate : m.step.state.Alike n.step.state := congrArg Ran.state hsteps
      have hresult : m.step.result = n.step.result := (congrArg Ran.result hsteps :)
      obtain ⟨houtcomes, hend⟩ := ih hstate hrest
      refine ⟨?_, hend⟩
      simp only [outcomes]
      rw [h.request?, hresult, houtcomes]
    | interrupt byte => exact ih (h.interrupt byte) hrest
    | nmi => exact ih h.interruptNmi hrest

/-- A processor with the given flags before a program that enables interrupts,
corrects the accumulator, puts it out, asks for a number, returns on carry, and
halts. The handler at 0x66 is a RETN. -/
def flagged (f shadow : Byte) : Machine Empty (Recorder Byte Byte) :=
  let program : List Byte := [0x31, 0x60, 0x00, 0xfb, 0x27, 0xd3, 0x07, 0xdb, 0x09, 0xd8, 0x76]
  let start : Machine Empty (Recorder Byte Byte) :=
    new (.ofList (program ++ List.replicate 91 0 ++ [0xed, 0x45])) 0
  { start with
    flags := .ofByte f
    regs.shadow.flags := .ofByte shadow
    ports.observers := [{}] }

/-- A device supplies EX AF, AF', so that flags that were in the shadow are those
that the accumulator is corrected by. -/
theorem undocumented_hidden_exchanged :
    let m := flagged 0xff 0x00
    let n := flagged 0xd7 0x28
    let run : List Signal := [.step, .step, .interrupt 0x08, .nmi] ++ List.replicate 9 .step
    (m.Alike n ∧ m.flags ≠ n.flags ∧
      Each (fun (m : Machine Empty (Recorder Byte Byte)) o =>
        o.isStep → m.executed? ≠ some (.push .af)) m run) ∧
    outcomes m run = outcomes n run ∧ (after m run).Alike (after n run) ∧
    (outcomes m run).filterMap Outcome.request? = [.out 7 0, .inp 9] ∧
    (after m run).regs.shadow.flags ≠ (after n run).regs.shadow.flags := by
  intro m n run
  have halike : m.Alike n := rfl
  have hpush : Each (fun (m : Machine Empty (Recorder Byte Byte)) o =>
      o.isStep → m.executed? ≠ some (.push .af)) m run := by decide +kernel
  obtain ⟨houtcomes, hend⟩ := undocumented_hidden halike run hpush
  exact ⟨⟨halike, by decide +kernel, hpush⟩, houtcomes, hend, by decide +kernel,
    by decide +kernel⟩

end Machine

end Retrocore.Z80
