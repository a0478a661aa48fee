import Retrocore.Proofs.Frames.Z80
import Retrocore.Proofs.Text.Digits

/-!
# Where relative jumps are said to lead

JR and DJNZ lead a signed distance on from where the next instruction starts.
The processor knows that place, since its program counter has moved there when
the jump is taken. Text is made of an instruction and its address alone, and
takes the instruction for two cells long (`Text.jumpTarget`). Behind a `dd` or
`fd` byte, which means nothing to a jump but is part of it, it takes three.

So what is shown is where the processor goes if the jump stands in the root
table, and one cell before that if it has a prefix (`shows_target_iff`).
-/

namespace Retrocore.Z80

open Text

/-- The distance of a relative jump. -/
def Instruction.distance? : Instruction → Option Byte
  | .jr _ d | .djnz d => some d
  | _ => none

/-- The text of a relative jump to what is shown. -/
def Instruction.textTo (shown : String) : Instruction → Option String
  | .jr none _ => some s!"jr {shown}"
  | .jr (some cc) _ => some s!"jr {cc.name}, {shown}"
  | .djnz _ => some s!"djnz {shown}"
  | _ => none

/-- The text of the instruction at an address is that of a jump to a target. -/
def Instruction.ShowsTarget (i : Instruction) (pc target : Word) : Prop :=
  i.textTo (hex16 target) = some (i.textAt (some pc))

variable {i : Instruction} {offset : Byte}

/-- The target can be told from the text. -/
theorem Instruction.showsTarget_iff (h : i.distance? = some offset) (pc target : Word) :
    i.ShowsTarget pc target ↔ target = jumpTarget pc offset := by
  have hinj : hex16 target = hex16 (jumpTarget pc offset) ↔ target = jumpTarget pc offset :=
    ⟨hex16_inj, congrArg hex16⟩
  rw [← hinj]
  cases i with
  | jr when? d =>
    cases h
    cases when? with
    | none => exact Option.some_inj.trans (String.append_right_inj "jr ")
    | some cc => exact Option.some_inj.trans (String.append_right_inj ("jr " ++ cc.name ++ ", "))
  | djnz d =>
    cases h
    exact Option.some_inj.trans (String.append_right_inj "djnz ")
  | _ => cases h

/-! ## How long a jump is -/

/-- In its table a relative jump takes one cell more, its distance. -/
theorem decodeRoot_distance {index : Option Index} {opcode : Byte} {s : Stream Byte}
    (h : (decodeRoot index opcode s).1.distance? = some offset) :
    (decodeRoot index opcode s).2 = 1 := by
  revert h
  unfold decodeRoot
  dsimp only
  repeat' split
  all_goals
    intro h
    first
    | rfl
    | cases h

theorem decodeBits_distance (opcode : Byte) (target : Place) (copy : Option Reg) :
    (decodeBits opcode target copy).distance? = none := by
  unfold decodeBits
  dsimp only
  split <;> rfl

theorem decodeExtended_distance {opcode : Byte} {s : Stream Byte} {operands : Nat}
    (h : decodeExtended opcode s = some (i, operands)) : i.distance? = none := by
  unfold decodeExtended at h
  dsimp only at h
  repeat' split at h
  all_goals
    first
    | cases h; rfl
    | cases h

/-- Behind a prefix it takes three cells. -/
theorem decodeIndexed_distance {index : Index} {s : Stream Byte} {d : Decoded Instruction}
    (h : decodeIndexed index s = .ok d) (hjump : d.instruction.distance? = some offset) :
    d.table = .indexed ∧ d.length = 3 := by
  unfold decodeIndexed at h
  split at h
  next =>
    cases h
    rw [decodeBits_distance] at hjump
    cases hjump
  next => cases h
  next => cases h
  next => cases h
  next =>
    cases h
    exact ⟨rfl, congrArg (2 + ·) (decodeRoot_distance hjump)⟩

/-- A relative jump takes two cells in the root table and three behind a
prefix. -/
theorem decode_distance {s : Stream Byte} {d : Decoded Instruction} (h : decode s = .ok d)
    (hjump : d.instruction.distance? = some offset) :
    (d.table = .root ∧ d.length = 2) ∨ (d.table = .indexed ∧ d.length = 3) := by
  unfold decode at h
  split at h
  next =>
    cases h
    rw [decodeBits_distance] at hjump
    cases hjump
  next =>
    split at h
    next hextended =>
      cases h
      rw [decodeExtended_distance hextended] at hjump
      cases hjump
    next => cases h
  next => exact .inr (decodeIndexed_distance h hjump)
  next => exact .inr (decodeIndexed_distance h hjump)
  next =>
    cases h
    exact .inl ⟨rfl, congrArg (1 + ·) (decodeRoot_distance hjump)⟩

namespace Machine

variable {μ δ : Type} [Mapper μ Byte] [Observer δ Byte Byte] {m : Machine μ δ}

/-- Whether the processor takes a relative jump. -/
def takes (m : Machine μ δ) : Instruction → Bool
  | .jr when? _ => m.taken when?
  | .djnz _ => m.regs.b - 1 != 0
  | _ => false

/-- A jump that is taken leads on from where the program counter is. -/
theorem pc_execute_jump (h : i.distance? = some offset) (htakes : m.takes i = true) :
    (m.execute i).state.regs.pc = m.regs.pc + signExtend offset := by
  cases i with
  | jr when? d =>
    cases h
    simp only [execute, show m.taken when? = true from htakes, if_true]
    rfl
  | djnz d =>
    cases h
    simp only [execute, show (m.regs.b - 1 != 0) = true from htakes, if_true]
    rfl
  | _ => cases h

/-- The target shown is the one taken just if the jump has no prefix. -/
theorem shows_target_iff {d : Decoded Instruction} (hrun : m.action = .run)
    (hfetched : m.fetched = .ok d) (hjump : d.instruction.distance? = some offset)
    (htakes : m.takes d.instruction = true) :
    d.instruction.ShowsTarget m.regs.pc m.step.state.regs.pc ↔ d.table = .root := by
  have hpc : m.step.state.regs.pc = m.regs.pc + UInt16.ofNat d.length + signExtend offset := by
    rw [step_of_fetched hrun hfetched]
    exact pc_execute_jump (m := (m.advance d.length).refresh d.fetches) hjump htakes
  rw [Instruction.showsTarget_iff hjump, hpc]
  unfold jumpTarget
  obtain ⟨htable, hlength⟩ | ⟨htable, hlength⟩ := decode_distance hfetched hjump
  · rw [htable, hlength]
    exact iff_of_true rfl rfl
  · rw [htable, hlength]
    refine iff_of_false ?_ (by decide)
    intro hsame
    have hcells : UInt16.ofNat 3 = 2 :=
      UInt16.add_right_inj _ |>.mp (UInt16.add_left_inj _ |>.mp hsame)
    exact absurd hcells (by decide)

/-- A DJNZ at address 0 that leads back across the end of the address space. -/
theorem shows_target_iff_backwards :
    let m : Machine Empty (Recorder Byte Byte) := .new (.ofList [0x10, 0x80]) 0
    (m.action = .run ∧ m.fetched = .ok (.root 0x10 (.djnz 0x80) 1) ∧
      m.takes (.djnz 0x80) = true) ∧
    (Instruction.djnz 0x80).ShowsTarget 0 m.step.state.regs.pc := by
  intro m
  have hrun : m.action = .run := by decide
  have hfetched : m.fetched = .ok (.root 0x10 (.djnz 0x80) 1) := by with_unfolding_all rfl
  have htakes : m.takes (.djnz 0x80) = true := by decide
  exact ⟨⟨hrun, hfetched, htakes⟩, (shows_target_iff hrun hfetched rfl htakes).mpr rfl⟩

/-- Behind a `dd` byte a JR goes one cell further than is shown. -/
theorem prefixed_jump_misses_target :
    let m : Machine Empty (Recorder Byte Byte) := .new (.ofList [0xdd, 0x18, 0x05]) 0x0000
    let jump : Instruction := .jr none 0x05
    (m.action = .run ∧ m.fetched = .ok ⟨jump, .indexed, 0x18, 3, 2⟩ ∧ m.takes jump = true) ∧
    jump.textAt (some 0x0000) = "jr 0x0007" ∧ m.step.state.regs.pc = 0x0008 ∧
    ¬jump.ShowsTarget 0x0000 0x0008 := by
  intro m jump
  have hmisses : ¬jump.ShowsTarget 0x0000 0x0008 := by
    rw [Instruction.showsTarget_iff (show jump.distance? = some 0x05 from rfl)]
    decide
  have hfetched : m.fetched = .ok ⟨jump, .indexed, 0x18, 3, 2⟩ := by with_unfolding_all rfl
  exact ⟨⟨by decide, hfetched, by decide⟩, by decide +kernel, by decide +kernel, hmisses⟩

end Machine

end Retrocore.Z80
