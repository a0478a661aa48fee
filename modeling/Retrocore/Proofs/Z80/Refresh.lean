import Retrocore.Proofs.Faults.Z80
import Retrocore.Proofs.Operations
import Retrocore.Proofs.Z80.Blocks
import Retrocore.Proofs.Z80.Grammar

/-!
# The refresh register

The low seven bits of R count the opcodes that the Z80 fetches, and the top bit is what the
program has put there. How many opcodes a step fetches can be seen from the first byte that it
reads: two if that is a prefix, and one otherwise. The displacement and the last byte behind `dd cb`
are not fetched as opcodes. This is so whether the bytes mean something or not, whether they stand
in memory or the first comes from a device, and whether the instruction succeeds or not; and a step
that reads nothing counts for one (`Machine.fetches`).

The decoder counts on its own (`Decoded.fetches`), and `fetches_of_decode` says that it agrees. It
remains that an instruction does not touch R behind its fetches, except LD R,A: of all that can be
decoded, only LD R,A and LD A,R have R for an operand (`namesR_of_decode`). `refresh_counts_fetches`
puts it together, by induction over runs of steps and requests.
-/

namespace Retrocore.Z80

/-- How many opcodes are fetched if `opcode` is the first. -/
def opcodeFetches (opcode : Byte) : Nat := if opcode ∈ prefixBytes then 2 else 1

/-! ## What the decoder counts -/

section

variable {s : Stream Byte}

/-- The decoder counts what the first byte shows. -/
theorem fetches_of_decode {d : Decoded Instruction} (h : decode s = .ok d) :
    d.fetches = opcodeFetches (s 0) := by
  cases entry_of_decode h with
  | root hopcode => exact (if_neg hopcode).symm
  | bits hlead =>
    rw [hlead]
    rfl
  | extended hlead =>
    rw [hlead]
    rfl
  | @indexed x _ _ hlead =>
    rw [hlead]
    cases x <;> rfl
  | @indexedBits x hlead =>
    rw [hlead]
    cases x <;> rfl

/-- Only bytes behind a prefix can mean nothing. -/
theorem fetches_of_undecodable {u : Undecodable} (h : decode s = .error u) :
    u.fetches = 2 ∧ opcodeFetches (s 0) = 2 := by
  obtain ⟨table, hhole, rfl⟩ := decode_eq_error_iff.mp h
  refine ⟨rfl, ?_⟩
  cases hhole with
  | extended hlead =>
    rw [hlead]
    rfl
  | indexed hlead =>
    rcases hlead with hlead | hlead <;>
      rw [hlead] <;> rfl

/-- So the count is right whatever becomes of the bytes. -/
theorem fetches_of_cellsRead : (Machine.cellsRead (decode s)).2 = opcodeFetches (s 0) := by
  cases h : decode s with
  | ok d => exact fetches_of_decode h
  | error u => exact (fetches_of_undecodable h).1.trans (fetches_of_undecodable h).2.symm

end

/-! ## Instructions on R -/

def Place.isR : Place → Bool
  | .reg .r => true
  | _ => false

def Operand.isR : Operand → Bool
  | .place p => p.isR
  | .imm _ => false

/-- R is an operand. -/
def Instruction.namesR : Instruction → Bool
  | .ld dst src => dst.isR || src.isR
  | .alu _ src => src.isR
  | .inc target | .dec target | .bit _ target => target.isR
  | .rot _ target copy | .res _ target copy | .set _ target copy => target.isR || copy == some .r
  | .inC which | .outC which => which == some .r
  | _ => false

/-- LD R,A. -/
def Instruction.loadR : Instruction := .ld (.reg .r) (.place (.reg .a))

/-- LD A,R. -/
def Instruction.readR : Instruction := .ld (.reg .a) (.place (.reg .r))

/-- The eight registers of the opcode fields do not contain R. -/
theorem Reg.ofCode_ne_r (code : Nat) : Reg.ofCode code ≠ .r := by
  unfold Reg.ofCode
  split <;> decide

@[simp] theorem Place.isR_a : (Place.reg .a).isR = false := rfl

@[simp] theorem Place.isR_at (p : Pair) : (Place.at p).isR = false := rfl

@[simp] theorem Place.isR_idx (x : Index) (d : Byte) : (Place.idx x d).isR = false := rfl

@[simp] theorem Place.isR_cell (address : Word) : (Place.cell address).isR = false := rfl

@[simp] theorem Place.isR_ofReg (code : Nat) : (Place.reg (Reg.ofCode code)).isR = false := by
  unfold Reg.ofCode
  split <;> rfl

/-- No place that an opcode can name by a field is R. -/
@[simp] theorem Place.isR_ofCode (index : Option Index) (d : Byte) (code : Nat) :
    (Place.ofCode index d code).isR = false := by
  unfold Place.ofCode
  split
  next => obtain _ | _ | _ := index <;> rfl
  next => obtain _ | _ | _ := index <;> rfl
  next => cases index <;> rfl
  next => exact Place.isR_ofReg _

/-- The copy that an indexed bit instruction makes. -/
theorem copy_ne_r (b : Prop) [Decidable b] (code : Nat) :
    ((if b then none else some (Reg.ofCode code)) == some .r) = false := by
  refine beq_false_of_ne ?_
  split
  next => exact fun h => nomatch h
  next => exact fun h => Reg.ofCode_ne_r code (Option.some.inj h)

/-- The root table does not know R, behind an index prefix or not. -/
theorem decodeRoot_namesR (index : Option Index) (opcode : Byte) (s : Stream Byte) :
    (decodeRoot index opcode s).1.namesR = false := by
  generalize hd : decodeRoot index opcode s = decoded
  unfold decodeRoot at hd
  dsimp only at hd
  repeat' split at hd
  all_goals
    subst hd
    first
    | rfl
    | simp [Instruction.namesR, Operand.isR]

/-- Block instructions stand behind the prefix 0xed and not in the root table. -/
theorem decodeRoot_ne_block (index : Option Index) (opcode : Byte) (s : Stream Byte) (b : Block) :
    (decodeRoot index opcode s).1 ≠ .block b := by
  generalize hd : decodeRoot index opcode s = decoded
  unfold decodeRoot at hd
  dsimp only at hd
  repeat' split at hd
  all_goals
    subst hd
    exact fun h => nomatch h

/-- A bit instruction has R for an operand only if it is given R. -/
theorem decodeBits_namesR (opcode : Byte) {target : Place} {copy : Option Reg}
    (htarget : target.isR = false) (hcopy : (copy == some .r) = false) :
    (decodeBits opcode target copy).namesR = false := by
  unfold decodeBits
  dsimp only
  split <;> simp only [Instruction.namesR, htarget, hcopy, Bool.or_false]

/-- Behind the prefix 0xed two opcodes name R, one for each direction. -/
theorem decodeExtended_namesR {opcode : Byte} {s : Stream Byte} {e : Instruction × Nat}
    (h : decodeExtended opcode s = some e) (hr : e.1.namesR = true) :
    e.1 = .loadR ∨ e.1 = .readR := by
  unfold decodeExtended at h
  dsimp only at h
  repeat' split at h
  -- opcodes that mean nothing go first
  all_goals
    cases h
  all_goals
    first
    | exact .inl rfl
    | exact .inr rfl
    | exact absurd (Option.some.inj (eq_of_beq hr)) (Reg.ofCode_ne_r _)
    | cases hr

/-- LD R,A and LD A,R have R for an operand, and no other instruction. -/
theorem namesR_of_decode {s : Stream Byte} {d : Decoded Instruction} (h : decode s = .ok d)
    (hr : d.instruction.namesR = true) :
    d.instruction = .loadR ∨ d.instruction = .readR := by
  cases entry_of_decode h with
  | root _ hentry =>
    have hfalse := decodeRoot_namesR none (s 0) (s.drop 1)
    rw [hentry] at hfalse
    exact absurd hr (Bool.eq_false_iff.mp hfalse)
  | bits =>
    have hcopy : ((none : Option Reg) == some .r) = false := rfl
    have hfalse := decodeBits_namesR (s 1) (Place.isR_ofCode none 0 (s 1 % 8).toNat) hcopy
    exact absurd hr (Bool.eq_false_iff.mp hfalse)
  | extended _ hentry => exact decodeExtended_namesR hentry hr
  | @indexed x _ _ _ _ hentry =>
    have hfalse := decodeRoot_namesR (some x) (s 1) (s.drop 2)
    rw [hentry] at hfalse
    exact absurd hr (Bool.eq_false_iff.mp hfalse)
  | @indexedBits x =>
    have hfalse := decodeBits_namesR (s 3) (Place.isR_idx x (s 2))
      (copy_ne_r (s 3 % 8 = 6) (s 3 % 8).toNat)
    exact absurd hr (Bool.eq_false_iff.mp hfalse)

namespace Machine

variable {μ δ : Type} (m : Machine μ δ)

/-! ## What instructions do to R -/

/-- Setting another register leaves R alone. -/
theorem r_setReg {which : Reg} (h : which ≠ .r) (v : Byte) :
    (m.setReg which v).regs.r = m.regs.r := by
  cases which with
  | r => exact absurd rfl h
  | _ => rfl

@[simp] theorem r_setPair (p : Pair) (v : Word) : (m.setPair p v).regs.r = m.regs.r := by
  cases p <;> rfl

/-- A block instruction that repeats goes back to its own bytes; they are counted when they are
fetched again. -/
@[simp] theorem r_again (b : Block) (more : Bool) : (m.again b more).state.regs.r = m.regs.r := by
  unfold again
  split <;> rfl

variable [Mapper μ Byte]

/-- Storing to a place that is not R leaves R alone. -/
theorem r_assign {p : Place} (h : p.isR = false) (v : Byte) :
    (m.assign p v).regs.r = m.regs.r := by
  cases p with
  | reg which =>
    refine m.r_setReg ?_ v
    rintro rfl
    cases h
  | _ => rfl

/-- So does copying to a register that is not R. -/
theorem r_assignCopy {target : Place} {copy : Option Reg}
    (h : (target.isR || copy == some .r) = false) (v : Byte) :
    (m.assignCopy target copy v).regs.r = m.regs.r := by
  obtain ⟨htarget, hcopy⟩ := Bool.or_eq_false_iff.mp h
  cases copy with
  | none => exact m.r_assign htarget v
  | some which =>
    have hwhich : which ≠ .r := fun heq => ne_of_beq_false hcopy (congrArg some heq)
    exact (r_setReg _ hwhich v).trans (m.r_assign htarget v)

variable [Observer δ Byte Byte]

/-- A round uses the pairs, the accumulator and the flags. -/
theorem r_blockRound (b : Block) : (m.blockRound b).state.regs.r = m.regs.r := by
  unfold blockRound
  cases b.kind with
  | ld => exact r_again _ b _
  | cp => exact r_again _ b _
  | inp =>
    simp only [blockIn]
    split
    next => rfl
    next => exact r_again _ b _
  | out =>
    simp only [blockOut]
    split
    next => rfl
    next => exact (r_again _ b _).trans (r_setPair _ .hl _)

/-- An instruction without R for an operand leaves it alone, also if it fails. -/
theorem r_execute {i : Instruction} (h : i.namesR = false) :
    (m.execute i).state.regs.r = m.regs.r := by
  cases i with
  | ld dst src => exact r_assign _ (Bool.or_eq_false_iff.mp h).1 _
  | ldPair p v => exact m.r_setPair p v
  | loadPair p address => exact r_setPair _ p _
  | ldSp p => exact m.r_setPair .sp _
  | pop p => exact r_setPair _ p _
  | exSp p => exact r_setPair _ p _
  | inc target => exact r_assign _ h _
  | dec target => exact r_assign _ h _
  | incPair p => exact m.r_setPair p _
  | decPair p => exact m.r_setPair p _
  | addPair dst src => exact r_setPair _ dst _
  | adcHl p => exact r_setPair _ .hl _
  | sbcHl p => exact r_setPair _ .hl _
  | rot op target copy => exact r_assignCopy _ h _
  | res n target copy => exact r_assignCopy _ h _
  | set n target copy => exact r_assignCopy _ h _
  | inImm port =>
    simp only [execute]
    split <;> rfl
  | inC dst =>
    simp only [execute]
    split
    next =>
      cases dst with
      | none => rfl
      | some which =>
        exact r_setReg _ (fun heq => ne_of_beq_false h (congrArg some heq)) _
    next => rfl
  | jp when? address =>
    simp only [execute]
    split <;> rfl
  | jr when? d =>
    simp only [execute]
    split <;> rfl
  | djnz d =>
    simp only [execute]
    split <;> rfl
  | call when? address =>
    simp only [execute]
    split <;> rfl
  | ret when? =>
    simp only [execute]
    split <;> rfl
  | block b => exact m.r_blockRound b
  | _ => rfl

/-! ## Steps -/

/-- The bytes that the next step reads an instruction from, if it reads one: those at the program
counter, in interrupt mode zero behind the byte that a device supplies. -/
def source? : Option (Stream Byte) :=
  match m.action with
  | .nmi | .idle => none
  | .service byte =>
    if m.mode = .zero then some (Stream.cons byte (m.memory.stream m.regs.pc)) else none
  | .run => some (m.memory.stream m.regs.pc)

/-- How many opcodes the next step fetches. One is also counted where none is read. -/
def fetches : Nat := m.source?.elim 1 fun s => opcodeFetches (s 0)

/-- What a byte shows that has been `r`, and whose low seven bits have counted up to `n`. -/
def counted (r n : Nat) : Nat := r / 128 * 128 + (r + n) % 128

/-- Counting goes on where it has stopped. -/
theorem counted_counted (r n k : Nat) : counted (counted r n) k = counted r (n + k) := by
  unfold counted
  omega

variable {m} {s : Stream Byte}

omit [Observer δ Byte Byte] in
/-- An instruction that is run has been decoded from the bytes that the step reads. -/
theorem source?_of_executed {i : Instruction} (h : m.executed? = some i) :
    ∃ s d, m.source? = some s ∧ decode s = .ok d ∧ d.instruction = i := by
  unfold source?
  obtain ⟨byte, d, haction, hmode, hsupplied, hd⟩ | ⟨d, haction, hfetched, hd⟩ :=
    read_of_executed h
  · simp only [haction, hmode, if_true]
    exact ⟨_, d, rfl, hsupplied, hd⟩
  · simp only [haction]
    exact ⟨_, d, rfl, hfetched, hd⟩

omit [Observer δ Byte Byte] in
/-- Whatever is read is counted before it is run. -/
theorem toNat_r_begun (h : m.source? = some s) :
    m.begun.regs.r.toNat = counted m.regs.r.toNat m.fetches := by
  have hcount : m.fetches = (cellsRead (decode s)).2 := by
    unfold fetches
    rw [h]
    exact fetches_of_cellsRead.symm
  rw [hcount]
  unfold source? at h
  unfold begun
  cases haction : m.action with
  | nmi =>
    rw [haction] at h
    cases h
  | idle =>
    rw [haction] at h
    cases h
  | service byte =>
    simp only [haction] at h ⊢
    split at h
    next =>
      cases h
      exact toNat_r_refresh _ _
    next => cases h
  | run =>
    simp only [haction] at h ⊢
    cases h
    exact toNat_r_refresh _ _

/-- A step that runs no instruction has at most read one that means nothing. -/
theorem toNat_r_step_of_unexecuted (h : m.executed? = none) :
    m.step.state.regs.r.toNat = counted m.regs.r.toNat m.fetches := by
  cases unexecuted_of_eq_none h with
  | nmi haction =>
    have hfetches : m.fetches = 1 := by simp only [fetches, source?, haction, Option.elim]
    rw [step_of_nmi haction, hfetches]
    exact toNat_r_refresh _ 1
  | idle haction =>
    have hfetches : m.fetches = 1 := by simp only [fetches, source?, haction, Option.elim]
    rw [step_of_idle haction, hfetches]
    exact toNat_r_refresh _ 1
  | unread haction hfetched =>
    have hsource : m.source? = some (m.memory.stream m.regs.pc) := by
      simp only [source?, haction]
    have hbegun : m.begun.regs.r = m.step.state.regs.r := by
      rw [step_of_undecodable haction hfetched]
      unfold begun
      simp only [haction, hfetched, cellsRead]
      rfl
    rw [← hbegun]
    exact toNat_r_begun hsource
  | @unsupplied byte _ haction hmode hsupplied =>
    have hsource : m.source? = some (Stream.cons byte (m.memory.stream m.regs.pc)) := by
      simp only [source?, haction, hmode, if_true]
    rw [step_of_supplied_error haction hmode hsupplied]
    exact toNat_r_begun hsource
  | modeOne haction hmode =>
    have hfetches : m.fetches = 1 := by
      simp only [fetches, source?, haction, hmode, reduceCtorEq, if_false, Option.elim]
    rw [step_of_modeOne haction hmode, hfetches]
    exact toNat_r_refresh _ 1
  | modeTwo haction hmode =>
    have hfetches : m.fetches = 1 := by
      simp only [fetches, source?, haction, hmode, reduceCtorEq, if_false, Option.elim]
    rw [step_of_modeTwo haction hmode, hfetches]
    exact toNat_r_refresh _ 1

/-- A step counts the opcodes that it fetches, unless it runs LD R,A. -/
theorem toNat_r_step (h : m.executed? ≠ some .loadR) :
    m.step.state.regs.r.toNat = counted m.regs.r.toNat m.fetches := by
  cases hexecuted : m.executed? with
  | none => exact toNat_r_step_of_unexecuted hexecuted
  | some i =>
    obtain ⟨s, d, hsource, hdecode, rfl⟩ := source?_of_executed hexecuted
    obtain ⟨cost, hstep⟩ := step_eq_of_executed hexecuted
    have hkept : (m.begun.execute d.instruction).state.regs.r = m.begun.regs.r := by
      cases hr : d.instruction.namesR with
      | false => exact r_execute _ hr
      | true =>
        obtain hload | hread := namesR_of_decode hdecode hr
        · exact absurd (hexecuted.trans (congrArg some hload)) h
        · rw [hread]
          rfl
    rw [hstep]
    exact (congrArg UInt8.toNat hkept).trans (toNat_r_begun hsource)

omit [Observer δ Byte Byte] in
/-- An instruction that the root table does not have is fetched in two. -/
theorem fetches_of_executed {i : Instruction} (h : m.executed? = some i)
    (hroot : ∀ opcode s, (decodeRoot none opcode s).1 ≠ i) : m.fetches = 2 := by
  obtain ⟨s, d, hsource, hdecode, rfl⟩ := source?_of_executed h
  unfold fetches
  rw [hsource]
  show opcodeFetches (s 0) = 2
  rw [← fetches_of_decode hdecode]
  cases entry_of_decode hdecode with
  | root _ hentry => exact absurd (congrArg Prod.fst hentry) (hroot _ _)
  | _ => rfl

/-- LD R,A puts the accumulator into R, fetches or not. -/
theorem r_step_of_loadR (h : m.executed? = some .loadR) : m.step.state.regs.r = m.regs.a := by
  obtain ⟨cost, hstep⟩ := step_eq_of_executed h
  rw [hstep]
  show m.begun.regs.a = m.regs.a
  unfold begun
  cases m.action <;> rfl

/-- LD A,R finds its own two fetches counted in R. -/
theorem a_step_of_readR (h : m.executed? = some .readR) :
    m.fetches = 2 ∧ m.step.state.regs.a = m.step.state.regs.r := by
  constructor
  · refine fetches_of_executed h fun opcode s hentry => ?_
    have hnamed := decodeRoot_namesR none opcode s
    rw [hentry] at hnamed
    cases hnamed
  · obtain ⟨cost, hstep⟩ := step_eq_of_executed h
    rw [hstep]
    rfl

/-! ## Runs -/

/-- How many opcodes the steps of a run fetch. -/
def fetchesOf (m : Machine μ δ) : List Signal → Nat
  | [] => 0
  | .step :: run => m.fetches + fetchesOf m.step.state run
  | .interrupt byte :: run => fetchesOf (m.interrupt byte) run
  | .nmi :: run => fetchesOf m.interruptNmi run

/-- The signal is not a step that runs LD R,A. -/
def KeepsCount (m : Machine μ δ) (signal : Signal) : Prop :=
  signal = .step → m.executed? ≠ some .loadR

instance (m : Machine μ δ) (signal : Signal) : Decidable (m.KeepsCount signal) :=
  inferInstanceAs (Decidable (signal = .step → m.executed? ≠ some .loadR))

open Operable

/-- R has counted all fetches of a run that does not set it. -/
theorem toNat_r_after (run : List Signal) (hkeeps : Each KeepsCount m run) :
    (after m run).regs.r.toNat = counted m.regs.r.toNat (m.fetchesOf run) := by
  induction run generalizing m with
  | nil =>
    show m.regs.r.toNat = m.regs.r.toNat / 128 * 128 + m.regs.r.toNat % 128
    exact (Nat.div_add_mod' _ 128).symm
  | cons signal run ih =>
    obtain ⟨hfirst, hrest⟩ := hkeeps
    cases signal with
    | step =>
      have hstep := toNat_r_step (hfirst rfl)
      refine (ih hrest).trans ?_
      show counted m.step.state.regs.r.toNat (fetchesOf m.step.state run) = _
      rw [hstep]
      exact counted_counted ..
    | interrupt byte => exact ih hrest
    | nmi => exact ih hrest

/-- **R counts opcode fetches.** In every run without LD R,A, which puts the accumulator there, the
top bit of R stays and the other bits count the fetches of all steps. These are two for an
instruction behind a prefix, among them each round of a block instruction, and for bytes that mean
nothing, and one for any other instruction and for a step that reads none. LD A,R finds R with its
own two fetches counted. -/
theorem refresh_counts_fetches (m : Machine μ δ) :
    (∀ run, Each KeepsCount m run →
      (after m run).regs.r.bit 7 = m.regs.r.bit 7 ∧
      (after m run).regs.r.toNat % 128 = (m.regs.r.toNat + m.fetchesOf run) % 128) ∧
    (m.source? = none → m.fetches = 1) ∧
    (∀ s d, m.source? = some s → decode s = .ok d →
      m.fetches = if d.table = .root then 1 else 2) ∧
    (∀ s u, m.source? = some s → decode s = .error u → m.fetches = 2) ∧
    (∀ b, m.executed? = some (.block b) → m.fetches = 2) ∧
    (m.executed? = some .loadR → m.step.state.regs.r = m.regs.a) ∧
    (m.executed? = some .readR →
      m.fetches = 2 ∧ m.step.state.regs.a = m.step.state.regs.r) := by
  refine ⟨fun run hkeeps => ?_, fun hnone => ?_, fun s d hsource hdecode => ?_,
    fun s u hsource hdecode => ?_, fun b hblock => ?_, r_step_of_loadR, a_step_of_readR⟩
  · have hr := toNat_r_after run hkeeps
    constructor
    · unfold Byte.bit
      rw [hr, Nat.testBit_eq_decide_div_mod_eq, Nat.testBit_eq_decide_div_mod_eq]
      have htop : counted m.regs.r.toNat (m.fetchesOf run) / 2 ^ 7 = m.regs.r.toNat / 2 ^ 7 := by
        unfold counted
        omega
      rw [htop]
    · rw [hr]
      unfold counted
      omega
  · unfold fetches
    rw [hnone]
    rfl
  · rw [← (entry_of_decode hdecode).fetches_eq, fetches_of_decode hdecode]
    unfold fetches
    rw [hsource]
    rfl
  · unfold fetches
    rw [hsource]
    exact (fetches_of_undecodable hdecode).2
  · exact fetches_of_executed hblock fun opcode s => decodeRoot_ne_block none opcode s b

/-- A processor that has put 0xff into R from the accumulator before it reads R, tests a bit of an
indexed cell, and finds bytes that mean nothing. The second of these counts its own reads, so that
they mean something when they are read again. A request waits in vain, and a non-maskable one is
delivered. -/
theorem refresh_counts_fetches_ldR :
    let program : List Byte := [0xed, 0x4f, 0xed, 0x5f, 0xdd, 0xcb, 0x01, 0x46, 0xed, 0x00]
    let memory : Memory (Tally Byte) Byte := ⟨⟨program.toArray⟩, some ⟨9, 0x3e⟩⟩
    let m : Machine (Tally Byte) (Recorder Byte Byte) := new memory 0
    let n := m.step.state
    let run : List Signal := [.step, .step, .interrupt 7, .step, .step, .nmi, .step]
    (m.executed? = some .loadR ∧ n.regs.r = 0xff) ∧
    (n.executed? = some .readR ∧ n.step.state.regs.a = 0x81) ∧
    ((after n (run.take 3)).executed? = none ∧
      (after n (run.take 4)).executed? = some (.inC (some .b))) ∧
    (Each KeepsCount n run ∧ n.fetchesOf run = 2 + 2 + 2 + 2 + 1 ∧
      (after n run).regs.r.bit 7 = true ∧ (after n run).regs.r.toNat % 128 = 8) := by
  intro program memory m n run
  have hload : m.executed? = some .loadR := by decide +kernel
  have hread : n.executed? = some .readR := by decide +kernel
  have hkeeps : Each KeepsCount n run := by decide +kernel
  have hfetches : n.fetchesOf run = 2 + 2 + 2 + 2 + 1 := by decide +kernel
  have hn : n.regs.r = 0xff := (refresh_counts_fetches m).2.2.2.2.2.1 hload
  obtain ⟨hafter, -, -, -, -, -, ha⟩ := refresh_counts_fetches n
  obtain ⟨htop, hcount⟩ := hafter run hkeeps
  rw [hn] at htop hcount
  rw [hfetches] at hcount
  have hstep : n.step.state.regs.r = 0x81 := by decide +kernel
  have hunread : (after n (run.take 3)).executed? = none := by decide +kernel
  have hreread : (after n (run.take 4)).executed? = some (.inC (some .b)) := by decide +kernel
  exact ⟨⟨hload, hn⟩, ⟨hread, (ha hread).2.trans hstep⟩, ⟨hunread, hreread⟩, hkeeps, hfetches,
    htop, hcount⟩

end Machine

end Retrocore.Z80
