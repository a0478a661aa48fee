import Retrocore.Proofs.Frames.Requests
import Retrocore.Proofs.Z80.Blocks

/-!
# Block input and output move every byte once

A round of OTIR or OTDR puts the cell at HL out to port C, and one of INIR or INDR
stores there what an input from port C reads. The count is in B alone.

Observers have a state of their own, and what one of them answers may depend on
all that it has heard before. So the ports are followed request by request
(`Ports.course`), and the value that a round reads is the one supplied at that
point of the course.

Both ways are one loop (`HasMoved`), with a `Transfer` for what they differ in:
the requests, the bytes moved, and the memory that this leaves. `StartsTransfer.run`
is the loop, and `block_transfer` what it comes to either way.
-/

namespace Retrocore.Z80.Machine

variable {μ δ : Type}

/-! ## One round -/

/-- The machine once a byte has been moved, with the ports and the memory as the
move leaves them. -/
def portRound (m : Machine μ δ) (b : Block) (ports : Ports δ) (memory : Memory μ Byte)
    (v : Byte) : Machine μ δ :=
  let count := m.regs.b - 1
  let moved := { m with ports, memory, flags := m.blockPortFlags count v }.setPair .hl
    (Block.next b m.regs.hl)
  { moved with regs.b := count }

section

variable (m : Machine μ δ) (b : Block) (ports : Ports δ) (memory : Memory μ Byte) (v : Byte)

/-- HL goes on to the next cell, up or down. -/
@[simp] theorem hl_portRound :
    (m.portRound b ports memory v).regs.hl = Block.next b m.regs.hl :=
  wordOf_highByte_lowByte _

/-- B counts down. -/
@[simp] theorem b_portRound : (m.portRound b ports memory v).regs.b = m.regs.b - 1 := rfl

/-- All rounds use the same port, for C stays. -/
@[simp] theorem c_portRound : (m.portRound b ports memory v).regs.c = m.regs.c := rfl

@[simp] theorem pc_portRound : (m.portRound b ports memory v).regs.pc = m.regs.pc := rfl

@[simp] theorem ports_portRound : (m.portRound b ports memory v).ports = ports := rfl

@[simp] theorem memory_portRound : (m.portRound b ports memory v).memory = memory := rfl

@[simp] theorem control_portRound : (m.portRound b ports memory v).control = m.control := rfl

/-- Z tells whether B has run out. -/
@[simp] theorem zero_portRound :
    (m.portRound b ports memory v).flags.zero = (m.regs.b - 1 == 0) := rfl

/-- N is the top bit of the byte moved. -/
@[simp] theorem subtract_portRound :
    (m.portRound b ports memory v).flags.subtract = v.bit 7 := rfl

end

/-- What the rounds of a transfer ask of the ports and move, counted from zero, and
the memory after so many of them. -/
structure Transfer (μ : Type) where
  request : Nat → Request Byte Byte
  moved : Nat → Byte
  memory : Nat → Memory μ Byte

variable [Observer δ Byte Byte] {m m' : Machine μ δ} {b : Block} {t : Transfer μ} {n : Nat}

/-- What port C reads when it has been read so many times. -/
def supply (m : Machine μ δ) (i : Nat) : Byte :=
  (m.ports.course (fun _ => .inp m.regs.c) i).supplied m.regs.c

/-- What `n` rounds of a transfer have made of `m`, wherever the program counter
stands. The flags are those of the round before. -/
structure HasMoved (m : Machine μ δ) (b : Block) (t : Transfer μ) (n : Nat)
    (m' : Machine μ δ) : Prop where
  hl : m'.regs.hl = travel b.down m.regs.hl n
  b : m'.regs.b = m.regs.b - UInt8.ofNat n
  c : m'.regs.c = m.regs.c
  memory : m'.memory = t.memory n
  ports : m'.ports = m.ports.course t.request n
  control : m'.control = m.control
  zero : 0 < n → m'.flags.zero = (m'.regs.b == 0)
  subtract : ∀ i, n = i + 1 → m'.flags.subtract = (t.moved i).bit 7

/-- Nothing has been moved before the first round. -/
theorem HasMoved.start (h : t.memory 0 = m.memory) : m.HasMoved b t 0 m where
  hl := (travel_zero b.down _).symm
  b := (UInt8.sub_zero _).symm
  c := rfl
  memory := h.symm
  ports := rfl
  control := rfl
  zero := fun h => absurd h (Nat.lt_irrefl 0)
  subtract := fun i h => absurd h.symm (Nat.succ_ne_zero i)

/-- What has been moved does not depend on where the processor goes on. -/
theorem HasMoved.jump (h : m.HasMoved b t n m') (address : Word) :
    m.HasMoved b t n (m'.jump address) :=
  { h with }

/-- A round begins with what the rounds before it have made: the invariant does
not speak of the registers that fetching changes. -/
theorem HasMoved.fetch (h : m.HasMoved b t n m') : m.HasMoved b t n m'.pastBlock :=
  { h with }

/-- One more round moves one more byte: HL and B go on from where they are, and the
ports have been asked once more. -/
theorem HasMoved.round (h : m.HasMoved b t n m') :
    m.HasMoved b t (n + 1)
      (m'.portRound b (m.ports.course t.request (n + 1)) (t.memory (n + 1)) (t.moved n)) where
  hl := by
    rw [hl_portRound, ← Block.next_travel, ← h.hl]
  b := by
    rw [b_portRound, ← byteCount_pred, ← h.b]
  c := (c_portRound _ _ _ _ _).trans h.c
  memory := memory_portRound _ _ _ _ _
  ports := ports_portRound _ _ _ _ _
  control := (control_portRound _ _ _ _ _).trans h.control
  zero := by
    intro _
    rw [zero_portRound, b_portRound]
  subtract := by
    intro i hi
    obtain rfl : n = i := Nat.succ.inj hi
    exact subtract_portRound _ _ _ _ _

/-! ## All rounds -/

variable [Mapper μ Byte]

/-- A block instruction stands at the program counter and is about to run, and
none of the requests that the transfer makes will be refused. -/
structure StartsTransfer (m : Machine μ δ) (b : Block) (t : Transfer μ) : Prop where
  ready : m.Ready
  atBlock : m.AtBlock b
  heeded : ∀ i < roundsOfByte m.regs.b,
    (m.ports.course t.request i).refusal? (t.request i) = none

/-- The transfer does not store over the instruction before its last round, and
reads do not change the memory. -/
def LeavesIntact (m : Machine μ δ) (t : Transfer μ) : Prop :=
  ∀ i < roundsOfByte m.regs.b, (t.memory i).Quiet ∧
    (t.memory i).value m.regs.pc = m.memory.value m.regs.pc ∧
      (t.memory i).value (m.regs.pc + 1) = m.memory.value (m.regs.pc + 1)

/-- A round of the block instruction is one of the transfer, unless its request is
refused. -/
def CarriesOut (m : Machine μ δ) (b : Block) (t : Transfer μ) : Prop :=
  ∀ i m', m.HasMoved b t i m' → m'.ports.refusal? (t.request i) = none →
    m'.blockRound b =
      (m'.portRound b (m.ports.course t.request (i + 1)) (t.memory (i + 1)) (t.moved i)).again b
        (m'.regs.b - 1 != 0)

/-- A repeating instruction goes on until B has come to zero, if the ports let every
round pass and nothing that is stored falls on the instruction itself. -/
theorem StartsTransfer.run (h : m.StartsTransfer b t) (hrepeating : b.repeating = true)
    (hunmoved : t.memory 0 = m.memory) (hintact : m.LeavesIntact t)
    (hcarries : m.CarriesOut b t) :
    m.Completes (roundsOfByte m.regs.b) (m.HasMoved b t) := by
  have hrounds : m.Rounds b (roundsOfByte m.regs.b) (m.HasMoved b t) := {
    start := .start hunmoved
    jump := fun _ _ address hmoved => hmoved.jump address
    round := by
      intro i m' hi hmoved hpc
      obtain ⟨hquiet, hfirst, hsecond⟩ := hintact i hi
      rw [← hmoved.memory] at hquiet hfirst hsecond
      have hat := h.atBlock.of_unchanged hquiet hpc hfirst hsecond
      have hheeded : m'.ports.refusal? (t.request i) = none := by
        rw [hmoved.ports]
        exact h.heeded i hi
      have hcount : (m'.pastBlock.regs.b - 1 != 0) =
          decide (i + 1 < roundsOfByte m.regs.b) := by
        show (m'.regs.b - 1 != 0) = _
        rw [hmoved.b]
        exact byteCount_bne_zero hi
      have hfetched := hmoved.fetch
      refine ⟨ready_of_control h.ready hmoved.control, hat, _, ?_, pc_portRound _ _ _ _ _,
        hfetched.round⟩
      rw [← hcount]
      exact hcarries i _ hfetched hheeded }
  exact hrounds.run hrepeating (roundsOfByte_pos _)

/-- All that a transfer of `n` bytes comes to: as many steps, of which only the
last leaves the instruction, one request in each, and the state behind them. -/
structure MovesBlock (m : Machine μ δ) (b : Block) (t : Transfer μ) (n : Nat) : Prop where
  stays : ∀ i < n, (Core.steps m i).state.regs.pc = m.regs.pc
  leaves : (Core.steps m n).state.regs.pc = m.regs.pc + 2
  cost : (Core.steps m n).result = .ok (21 * (n - 1) + 16)
  ports : ∀ i ≤ n, (Core.steps m i).state.ports = m.ports.course t.request i
  /-- Every observer has heard the requests in order, and nothing else. -/
  heard : (Core.steps m n).state.ports.observers =
    m.ports.observers.map fun d => ((List.range n).map t.request).foldl Observer.hears d
  memory : (Core.steps m n).state.memory = t.memory n
  hl : (Core.steps m n).state.regs.hl = travel b.down m.regs.hl n
  b : (Core.steps m n).state.regs.b = 0
  c : (Core.steps m n).state.regs.c = m.regs.c
  zero : (Core.steps m n).state.flags.zero = true
  subtract : (Core.steps m n).state.flags.subtract = (t.moved (n - 1)).bit 7

/-- When B has come to zero, what has been moved is the whole block. -/
theorem StartsTransfer.movesBlock (h : m.StartsTransfer b t)
    (hrun : m.Completes (roundsOfByte m.regs.b) (m.HasMoved b t)) :
    m.MovesBlock b t (roundsOfByte m.regs.b) := by
  have hpos := roundsOfByte_pos m.regs.b
  obtain ⟨last, hlast⟩ : ∃ last, roundsOfByte m.regs.b = last + 1 :=
    Nat.exists_eq_add_one.mpr hpos
  have hdone := hrun.holds _ (Nat.le_refl _)
  have hcount : (Core.steps m (roundsOfByte m.regs.b)).state.regs.b = 0 :=
    hdone.b.trans ((byteCount_eq_zero_iff hpos (Nat.le_refl _)).mpr rfl)
  exact {
    stays := hrun.stays
    leaves := hrun.leaves
    cost := hrun.cost
    ports := fun i hi => (hrun.holds i hi).ports
    heard := by
      rw [hdone.ports]
      exact Ports.observers_course h.heeded
    memory := hdone.memory
    hl := hdone.hl
    b := hcount
    c := hdone.c
    zero := by
      rw [hdone.zero hpos, hcount]
      rfl
    subtract := by
      rw [hlast, Nat.add_sub_cancel]
      exact hlast ▸ hdone.subtract last hlast }

/-! ## Both ways -/

/-- The cells from HL on are put out to port C. -/
def outward (m : Machine μ δ) (down : Bool) : Transfer μ where
  request i := .out m.regs.c (m.memory.value (travel down m.regs.hl i))
  moved i := m.memory.value (travel down m.regs.hl i)
  memory _ := m.memory

/-- What port C reads is stored from HL on. -/
def inward (m : Machine μ δ) (down : Bool) : Transfer μ where
  request _ := .inp m.regs.c
  moved := m.supply
  memory := m.memory.stored down m.regs.hl m.supply

omit [Observer δ Byte Byte] in
/-- An outward round puts out the byte that it has read. -/
@[simp] theorem request_outward (m : Machine μ δ) (down : Bool) (i : Nat) :
    (m.outward down).request i = .out m.regs.c ((m.outward down).moved i) := rfl

omit [Observer δ Byte Byte] in
/-- The bytes go out in the order of their cells. -/
@[simp] theorem moved_outward (m : Machine μ δ) (down : Bool) (i : Nat) :
    (m.outward down).moved i = m.memory.value (travel down m.regs.hl i) := rfl

/-- One round of OUTI or OUTD, if nobody refuses the byte: the cell is only read. -/
theorem blockOut_eq (b : Block) (hquiet : m.memory.Quiet)
    (h : m.ports.refusal? (.out m.regs.c (m.memory.value m.regs.hl)) = none) :
    m.blockOut b =
      (m.portRound b (m.ports.told m.regs.c (m.memory.value m.regs.hl)) m.memory
        (m.memory.value m.regs.hl)).again b (m.regs.b - 1 != 0) := by
  simp only [blockOut, read_of_quiet hquiet, Ports.write_of_heeded h]
  rfl

/-- One round of INI or IND, if nobody refuses to answer: what is supplied goes to the
cell. -/
theorem blockIn_eq (b : Block) (h : m.ports.refusal? (.inp m.regs.c) = none) :
    m.blockIn b =
      (m.portRound b (m.ports.asked m.regs.c)
        (m.memory.write m.regs.hl (m.ports.supplied m.regs.c))
        (m.ports.supplied m.regs.c)).again b (m.regs.b - 1 != 0) := by
  simp only [blockIn, Ports.read_of_heeded h]
  rfl

/-- Outward, every round is one of OUTI or OUTD and leaves the memory alone. -/
theorem carriesOut_outward (hquiet : m.memory.Quiet) (down repeating : Bool) :
    m.CarriesOut ⟨.out, down, repeating⟩ (m.outward down) := by
  intro i m' hmoved hheeded
  have hquiet' : m'.memory.Quiet := hmoved.memory ▸ hquiet
  have hcell : m'.memory.value m'.regs.hl = m.memory.value (travel down m.regs.hl i) := by
    rw [hmoved.memory, hmoved.hl]
    rfl
  have hrequest : (m.outward down).request i =
      .out m'.regs.c (m'.memory.value m'.regs.hl) := by
    rw [request_outward, moved_outward, hcell, hmoved.c]
  rw [hrequest] at hheeded
  show m'.blockOut _ = _
  rw [blockOut_eq _ hquiet' hheeded, hcell, hmoved.ports, hmoved.c, hmoved.memory]
  rfl

/-- Inward, every round stores what the ports supply, one cell after the other. -/
theorem carriesOut_inward (m : Machine μ δ) (down repeating : Bool) :
    m.CarriesOut ⟨.inp, down, repeating⟩ (m.inward down) := by
  intro i m' hmoved hheeded
  have hrequest : (m.inward down).request i = .inp m'.regs.c := by
    rw [hmoved.c]
    rfl
  rw [hrequest] at hheeded
  show m'.blockIn _ = _
  rw [blockIn_eq _ hheeded, hmoved.ports, hmoved.c, hmoved.memory, hmoved.hl]
  rfl

/-- **Block input and output move every byte once, in order.** A repeating block
output puts as many cells out as B says, and changes no memory; a repeating block
input that does not store over itself reads the port as often, and stores every
value that it reads in the next cell. -/
theorem block_transfer (m : Machine μ δ) (down : Bool) :
    (m.StartsTransfer ⟨.out, down, true⟩ (m.outward down) →
      m.MovesBlock ⟨.out, down, true⟩ (m.outward down) (roundsOfByte m.regs.b)) ∧
    (m.memory.Plain → m.StartsTransfer ⟨.inp, down, true⟩ (m.inward down) →
      (∀ i < roundsOfByte m.regs.b,
        travel down m.regs.hl i ≠ m.regs.pc ∧ travel down m.regs.hl i ≠ m.regs.pc + 1) →
      m.MovesBlock ⟨.inp, down, true⟩ (m.inward down) (roundsOfByte m.regs.b) ∧
        (∀ i < roundsOfByte m.regs.b,
          (Core.steps m (roundsOfByte m.regs.b)).state.memory.value (travel down m.regs.hl i) =
            m.supply i) ∧
        ∀ a, (∀ i < roundsOfByte m.regs.b, a ≠ travel down m.regs.hl i) →
          (Core.steps m (roundsOfByte m.regs.b)).state.memory.value a = m.memory.value a) := by
  constructor
  · intro hstart
    have hquiet := hstart.atBlock.quiet
    exact hstart.movesBlock (hstart.run rfl rfl (fun _ _ => ⟨hquiet, rfl, rfl⟩)
      (carriesOut_outward hquiet down true))
  · intro hplain hstart hclear
    have hle := roundsOfByte_le m.regs.b
    -- whatever has been stored when a round begins is in cells that are clear of it
    have hintact : m.LeavesIntact (m.inward down) := by
      intro i hi
      refine ⟨(hplain.stored i).quiet, ?_, ?_⟩
      · exact Memory.value_stored_outside hplain fun j hj =>
          (hclear j (Nat.lt_trans hj hi)).1.symm
      · exact Memory.value_stored_outside hplain fun j hj =>
          (hclear j (Nat.lt_trans hj hi)).2.symm
    have hdone := hstart.movesBlock (hstart.run rfl rfl hintact (m.carriesOut_inward down true))
    refine ⟨hdone, fun i hi => ?_, fun a ha => ?_⟩
    · rw [hdone.memory]
      exact Memory.value_stored hplain hi (by omega)
    · rw [hdone.memory]
      exact Memory.value_stored_outside hplain ha

/-- OTIR with two cells before it, the second of which is not zero. -/
def sender : Machine Empty (Recorder Byte Byte) :=
  specimen ⟨.out, false, true⟩ { b := 2, c := 5, h := 0x01, l := 0x00 } { observers := [{}] }
    0x101 0x87

/-- INIR with two bytes to come from an observer. -/
def receiver : Machine Empty (Recorder Byte Byte) :=
  specimen ⟨.inp, false, true⟩ { b := 2, c := 5, h := 0x01, l := 0x00 }
    { observers := [{ answers := [(5, 9)] }] } 0x102 1

/-- The recorder has noted the two cells, the last one first, and the two bytes
have arrived. -/
theorem block_transfer_recorded :
    (sender.StartsTransfer ⟨.out, false, true⟩ (sender.outward false) ∧
      (Core.steps sender 2).state.ports.observers.map Recorder.heard =
        [[.out 5 0x87, .out 5 0]] ∧
      (Core.steps sender 2).state.flags.subtract = true) ∧
    receiver.memory.Plain ∧ receiver.StartsTransfer ⟨.inp, false, true⟩ (receiver.inward false) ∧
      (Core.steps receiver 2).state.memory.value 0x101 = 9 ∧
      (Core.steps receiver 2).state.memory.value 0x102 = 1 := by
  have hsent : ∀ a, sender.memory.value a = _ := value_specimen
  have hkept : ∀ a, receiver.memory.value a = _ := value_specimen
  have hplain : receiver.memory.Plain := plain_specimen
  have hout : sender.StartsTransfer ⟨.out, false, true⟩ (sender.outward false) := {
    ready := ready_specimen
    atBlock := atBlock_specimen rfl (by decide) (by decide)
    heeded := by
      intro i hi
      match i, hi with
      | 0, _ => rfl
      | 1, _ => rfl }
  have hinp : receiver.StartsTransfer ⟨.inp, false, true⟩ (receiver.inward false) := {
    ready := ready_specimen
    atBlock := atBlock_specimen rfl (by decide) (by decide)
    heeded := by
      intro i hi
      match i, hi with
      | 0, _ => rfl
      | 1, _ => rfl }
  have hdone := (block_transfer sender false).1 hout
  obtain ⟨_, hstored, houtside⟩ := (block_transfer receiver false).2 hplain hinp (by decide)
  have hsends : roundsOfByte sender.regs.b = 2 := rfl
  have hreceives : roundsOfByte receiver.regs.b = 2 := rfl
  have hsecond : travel false receiver.regs.hl 1 = 0x101 := by decide
  have hlast : (sender.outward false).moved 1 = 0x87 := by
    have hcell : travel false sender.regs.hl 1 = 0x101 := by decide
    rw [moved_outward, hcell, hsent]
    rfl
  have hfar : ∀ i < 2, (0x102 : Word) ≠ travel false receiver.regs.hl i := by decide
  rw [hsends] at hdone
  rw [hreceives] at hstored houtside
  have harrived := hstored 1 (by decide)
  rw [hsecond] at harrived
  refine ⟨⟨hout, ?_, ?_⟩, hplain, hinp, harrived.trans rfl, ?_⟩
  · rw [hdone.heard]
    show [[Request.out 5 (sender.memory.value 0x101), .out 5 (sender.memory.value 0x100)]] = _
    rw [hsent, hsent]
    rfl
  · rw [hdone.subtract, hlast]
    rfl
  · exact (houtside 0x102 hfar).trans (hkept 0x102)

end Retrocore.Z80.Machine
