import Retrocore.I8080.Instruction
import Retrocore.Z80.Decode
import Retrocore.Lr35902.Instruction
import Retrocore.Lmc.Instruction
import Retrocore.Synacor.Instruction

/-!
# Decoders look at four cells

No instruction of any machine takes more than four cells, and no decoder looks
beyond them. So streams that agree on their first four cells decode alike,
wherever the cells come from, whether as an instruction or as none
(`decode_congr`). Every instruction takes at least one cell, and at most four
(`decode_length_pos`, `decode_length_le`). On the 8080 and the LR35902 it is said
too that an instruction depends on the cells that it takes and no others
(`decode_of_agree`), and of the Synacor machine's instructions which cell each of
their parts comes from (`readFrom_of_decode`).
-/

namespace Retrocore

/-- The streams start with the same four cells. -/
structure Stream.AgreeAtStart {κ : Type} (s t : Stream κ) : Prop where
  first : s 0 = t 0
  second : s 1 = t 1
  third : s 2 = t 2
  fourth : s 3 = t 3

variable {s t : Stream Byte}

/-- A word is made of two cells. -/
theorem Stream.word_congr (h0 : s 0 = t 0) (h1 : s 1 = t 1) :
    s.word 0 = t.word 0 := by
  unfold Stream.word
  rw [Nat.zero_add, h0, h1]

namespace I8080

/-- The operands are among the two cells behind the opcode. -/
theorem decodeOpcode_congr (opcode : Byte) (h0 : s 0 = t 0) (h1 : s 1 = t 1) :
    decodeOpcode opcode s = decodeOpcode opcode t := by
  have hword := Stream.word_congr h0 h1
  simp only [decodeOpcode, hword, h0]

/-- The 8080 reads an opcode and at most a word. -/
theorem decode_congr (h : s.AgreeAtStart t) : decode s = decode t := by
  have hoperands := fun opcode =>
    decodeOpcode_congr (s := s.drop 1) (t := t.drop 1) opcode h.second h.third
  simp only [decode, hoperands, h.first]

end I8080

namespace Z80

/-- The operands are among the two cells behind the opcode, also where one of
them is a distance. -/
theorem decodeRoot_congr (index : Option Index) (opcode : Byte) (h0 : s 0 = t 0)
    (h1 : s 1 = t 1) : decodeRoot index opcode s = decodeRoot index opcode t := by
  have hword := Stream.word_congr h0 h1
  have himmediate :
      ∀ code, s (distanceCells index code) = t (distanceCells index code) := by
    intro code
    unfold distanceCells
    split
    next => exact h1
    next => exact h0
  simp only [decodeRoot, hword, himmediate, h0]

/-- Behind the prefix 0xed at most a word follows the opcode. -/
theorem decodeExtended_congr (opcode : Byte) (h0 : s 0 = t 0) (h1 : s 1 = t 1) :
    decodeExtended opcode s = decodeExtended opcode t := by
  have hword := Stream.word_congr h0 h1
  simp only [decodeExtended, hword]

/-- Behind a prefix for an index register, three cells matter. -/
theorem decodeIndexed_congr (index : Index) (h0 : s 0 = t 0) (h1 : s 1 = t 1)
    (h2 : s 2 = t 2) :
    decodeIndexed index s = decodeIndexed index t := by
  have hoperands := fun opcode =>
    decodeRoot_congr (s := s.drop 1) (t := t.drop 1) (some index) opcode h1 h2
  simp only [decodeIndexed, hoperands, h0, h1, h2]

/-- No Z80 instruction reaches beyond four bytes. -/
theorem decode_congr (h : s.AgreeAtStart t) : decode s = decode t := by
  obtain ⟨h0, h1, h2, h3⟩ := h
  have hroot := fun opcode =>
    decodeRoot_congr (s := s.drop 1) (t := t.drop 1) none opcode h1 h2
  have hextended := decodeExtended_congr (s := s.drop 2) (t := t.drop 2) (t 1) h2 h3
  have hindexed := fun index =>
    decodeIndexed_congr (s := s.drop 1) (t := t.drop 1) index h1 h2 h3
  simp only [decode, hroot, hextended, hindexed, h0, h1]

end Z80

namespace Lr35902

/-- The operands of the LR35902 are a word at most. -/
theorem decodeOpcode_congr (opcode : Byte) (h0 : s 0 = t 0) (h1 : s 1 = t 1) :
    decodeOpcode opcode s = decodeOpcode opcode t := by
  have hword := Stream.word_congr h0 h1
  simp only [decodeOpcode, hword, h0]

/-- The LR35902 reads its bit table or one opcode with operands, all within four
bytes. -/
theorem decode_congr (h : s.AgreeAtStart t) : decode s = decode t := by
  have hoperands := fun opcode =>
    decodeOpcode_congr (s := s.drop 1) (t := t.drop 1) opcode h.second h.third
  simp only [decode, hoperands, h.first, h.second]

end Lr35902

namespace Lmc

/-- An instruction of the LMC is one word. -/
theorem decode_congr {s t : Stream Word} (h : s.AgreeAtStart t) :
    decode s = decode t := by
  simp only [decode, h.first]

end Lmc

namespace Synacor

/-- One of the Synacor machine is an opcode and up to three arguments. -/
theorem decode_congr {s t : Stream Word} (h : s.AgreeAtStart t) :
    decode s = decode t := by
  obtain ⟨h0, h1, h2, h3⟩ := h
  simp only [decode, decode.one, decode.two, decode.three, decode.done,
    decode.bad, h0, h1, h2, h3]

end Synacor

/-! ## Lengths -/

/-- An entry of a root table contains its opcode. -/
theorem Decoded.length_root {ι : Type} (opcode : Byte) (instruction : ι)
    (operands : Nat) :
    0 < (Decoded.root opcode instruction operands).length :=
  Nat.add_pos_left Nat.one_pos operands

/-- The 8080 decodes everything, so that reading goes on in any case. -/
theorem I8080.decode_length_pos (s : Stream Byte) : 0 < (I8080.decode s).length :=
  Decoded.length_root ..

theorem I8080.decodeOpcode_operands_le (opcode : Byte) (s : Stream Byte) :
    (I8080.decodeOpcode opcode s).2 ≤ 2 := by
  unfold I8080.decodeOpcode
  dsimp only
  repeat' split
  all_goals exact Nat.le_of_ble_eq_true rfl

/-- No instruction of the 8080 is longer than three bytes. -/
theorem I8080.decode_length_le (s : Stream Byte) : (I8080.decode s).length ≤ 3 :=
  Nat.add_le_add_left (I8080.decodeOpcode_operands_le _ _) 1

/-- The index prefix itself counts. -/
theorem Z80.decodeIndexed_length_pos {index : Z80.Index}
    {d : Decoded Z80.Instruction}
    (h : Z80.decodeIndexed index s = .ok d) : 0 < d.length := by
  unfold Z80.decodeIndexed at h
  split at h
  next =>
    cases h
    exact Nat.zero_lt_succ 3
  next => cases h
  next => cases h
  next => cases h
  next =>
    cases h
    exact Nat.add_pos_left Nat.two_pos _

/-- What the Z80 decodes takes it on. -/
theorem Z80.decode_length_pos {d : Decoded Z80.Instruction}
    (h : Z80.decode s = .ok d) :
    0 < d.length := by
  unfold Z80.decode at h
  split at h
  next =>
    cases h
    exact Nat.two_pos
  next =>
    split at h
    next =>
      cases h
      exact Nat.add_pos_left Nat.two_pos _
    next => cases h
  next => exact Z80.decodeIndexed_length_pos h
  next => exact Z80.decodeIndexed_length_pos h
  next =>
    cases h
    exact Decoded.length_root ..

namespace Z80

/-- A displacement is read at most once. -/
theorem distanceCells_le (index : Option Index) (code : Nat) : distanceCells index code ≤ 1 := by
  unfold distanceCells
  split <;> decide

/-- A distance stands only beside an operand of one byte or none. -/
theorem decodeRoot_operands_le (index : Option Index) (opcode : Byte) (s : Stream Byte) :
    (decodeRoot index opcode s).2 ≤ 2 := by
  have hcells := distanceCells_le index
  unfold decodeRoot
  dsimp only
  repeat' split
  all_goals
    first
    | exact Nat.le_of_ble_eq_true rfl
    | exact Nat.le_succ_of_le (hcells _)
    | exact Nat.succ_le_succ (hcells _)

/-- Behind the prefix 0xed at most a word follows the opcode. -/
theorem decodeExtended_operands_le {opcode : Byte} {s : Stream Byte} {r : Instruction × Nat}
    (h : decodeExtended opcode s = some r) : r.2 ≤ 2 := by
  unfold decodeExtended at h
  dsimp only at h
  repeat' split at h
  all_goals
    cases h <;> exact Nat.le_of_ble_eq_true rfl

/-- Prefix, opcode, displacement and immediate byte, or prefix, prefix, displacement and
opcode. -/
theorem decodeIndexed_length_le {index : Index} {d : Decoded Instruction}
    (h : decodeIndexed index s = .ok d) : d.length ≤ 4 := by
  unfold decodeIndexed at h
  split at h
  next =>
    cases h
    exact Nat.le_refl 4
  next => cases h
  next => cases h
  next => cases h
  next =>
    cases h
    exact Nat.add_le_add_left (decodeRoot_operands_le _ _ _) 2

/-- No instruction of the Z80 is longer than four bytes. -/
theorem decode_length_le {d : Decoded Instruction} (h : decode s = .ok d) : d.length ≤ 4 := by
  unfold decode at h
  split at h
  next =>
    cases h
    exact Nat.le_add_right 2 2
  next =>
    split at h
    next heq =>
      cases h
      exact Nat.add_le_add_left (decodeExtended_operands_le heq) 2
    next => cases h
  next => exact decodeIndexed_length_le h
  next => exact decodeIndexed_length_le h
  next =>
    cases h
    exact Nat.le_trans (Nat.add_le_add_left (decodeRoot_operands_le _ _ _) 1) (by decide)

end Z80

/-- What the LR35902 decodes takes it on. -/
theorem Lr35902.decode_length_pos {d : Decoded Lr35902.Instruction}
    (h : Lr35902.decode s = .ok d) : 0 < d.length := by
  unfold Lr35902.decode at h
  split at h
  next =>
    cases h
    exact Nat.two_pos
  next =>
    split at h
    next =>
      cases h
      exact Decoded.length_root ..
    next => cases h

theorem Lr35902.decodeOpcode_operands_le {opcode : Byte} {s : Stream Byte}
    {r : Lr35902.Instruction × Nat} (h : Lr35902.decodeOpcode opcode s = some r) : r.2 ≤ 2 := by
  unfold Lr35902.decodeOpcode at h
  dsimp only at h
  repeat' split at h
  all_goals
    cases h <;> exact Nat.le_of_ble_eq_true rfl

/-- No instruction of the LR35902 is longer than three bytes. -/
theorem Lr35902.decode_length_le {d : Decoded Lr35902.Instruction}
    (h : Lr35902.decode s = .ok d) : d.length ≤ 3 := by
  unfold Lr35902.decode at h
  split at h
  next =>
    cases h
    exact Nat.le_succ 2
  next =>
    split at h
    next heq =>
      cases h
      exact Nat.add_le_add_left (Lr35902.decodeOpcode_operands_le heq) 1
    next => cases h

/-! ## Just the cells of the instruction -/

namespace I8080

/-- The 8080 looks at no byte behind the operands it finds. -/
theorem decodeOpcode_of_agree (opcode : Byte)
    (h : ∀ j < (decodeOpcode opcode s).2, t j = s j) :
    decodeOpcode opcode t = decodeOpcode opcode s := by
  revert h
  unfold decodeOpcode
  dsimp only
  repeat' split
  -- the operand is a word or a byte, unless there is none
  all_goals
    intro h
    dsimp only at h
    first
    | rw [Stream.word_congr (h 0 (by decide)) (h 1 (by decide))]
    | rw [h 0 (by decide)]
    | rfl

/-- An instruction depends on no other cells than it takes. -/
theorem decode_of_agree (h : ∀ j < (decode s).length, t j = s j) : decode t = decode s := by
  have hfirst : t 0 = s 0 := h 0 (decode_length_pos s)
  have hoperands : decodeOpcode (s 0) (t.drop 1) = decodeOpcode (s 0) (s.drop 1) :=
    decodeOpcode_of_agree (s 0) fun j hj => h (1 + j) (Nat.add_lt_add_left hj 1)
  unfold decode
  rw [hfirst, hoperands]

end I8080

namespace Lr35902

theorem decodeOpcode_of_agree (opcode : Byte)
    (h : ∀ e ∈ decodeOpcode opcode s, ∀ j < e.2, t j = s j) :
    decodeOpcode opcode t = decodeOpcode opcode s := by
  revert h
  unfold decodeOpcode
  dsimp only
  repeat' split
  all_goals
    intro h
    first
    | replace h := h _ rfl
      dsimp only at h
      first
      | rw [Stream.word_congr (h 0 (by decide)) (h 1 (by decide))]
      | rw [h 0 (by decide)]
      | rfl
    | rfl

/-- An instruction can be told from its own bytes. -/
theorem decode_of_agree {d : Decoded Instruction} (hd : decode s = .ok d)
    (h : ∀ j < d.length, t j = s j) : decode t = .ok d := by
  unfold decode at hd ⊢
  split at hd
  next hbits =>
    cases hd
    rw [h 0 (by decide : 0 < 2), h 1 (by decide : 1 < 2), if_pos hbits]
  next hbits =>
    split at hd
    next e he =>
      cases hd
      have hfirst : t 0 = s 0 := h 0 (Decoded.length_root ..)
      have hoperands : decodeOpcode (s 0) (t.drop 1) = decodeOpcode (s 0) (s.drop 1) := by
        refine decodeOpcode_of_agree (s 0) fun e' he' j hj => ?_
        obtain rfl := Option.some.inj (he.symm.trans he')
        exact h (1 + j) (Nat.add_lt_add_left hj 1)
      rw [hfirst, if_neg hbits, hoperands, he]
    next => cases hd

end Lr35902

/-- An instruction of the LMC is one word. -/
theorem Lmc.decode_length {s : Stream Word} {d : Decoded Lmc.Instruction}
    (h : Lmc.decode s = .ok d) : d.length = 1 := by
  unfold Lmc.decode at h
  split at h
  next =>
    cases h
    rfl
  next => cases h

namespace Synacor

variable {s : Stream Word} {d : Decoded Instruction}

/-- The operation stands first, and each argument at its place behind it. -/
structure ReadFrom (d : Decoded Instruction) (s : Stream Word) : Prop where
  op : Op.ofCode? (s 0).toNat = some d.instruction.op
  args : ∀ j a, d.instruction.args[j]? = some a → Arg.ofWord? (s (j + 1)) = some a
  length : d.length = d.instruction.length

section

variable {op : Op} (hop : Op.ofCode? (s 0).toNat = some op)
include hop

theorem done_readFrom {i : Instruction} (h : decode.done s i = .ok d)
    (hi : i.op = op ∧ i.args = []) : ReadFrom d s := by
  cases h
  refine ⟨hi.1 ▸ hop, fun j x hx => ?_, rfl⟩
  rw [hi.2] at hx
  cases hx

theorem one_readFrom {make : Arg → Instruction} (h : decode.one s make = .ok d)
    (hmake : ∀ a, (make a).op = op ∧ (make a).args = [a]) : ReadFrom d s := by
  unfold decode.one at h
  split at h
  next => cases h
  next a ha =>
    cases h
    refine ⟨(hmake a).1 ▸ hop, fun j x hx => ?_, rfl⟩
    rw [(hmake a).2] at hx
    match j with
    | 0 => cases hx; exact ha
    | j + 1 => cases hx

theorem two_readFrom {make : Arg → Arg → Instruction} (h : decode.two s make = .ok d)
    (hmake : ∀ a b, (make a b).op = op ∧ (make a b).args = [a, b]) : ReadFrom d s := by
  unfold decode.two at h
  split at h
  next => cases h
  next a ha =>
    split at h
    next => cases h
    next b hb =>
      cases h
      refine ⟨(hmake a b).1 ▸ hop, fun j x hx => ?_, rfl⟩
      rw [(hmake a b).2] at hx
      match j with
      | 0 => cases hx; exact ha
      | 1 => cases hx; exact hb
      | j + 2 => cases hx

theorem three_readFrom {make : Arg → Arg → Arg → Instruction} (h : decode.three s make = .ok d)
    (hmake : ∀ a b c, (make a b c).op = op ∧ (make a b c).args = [a, b, c]) : ReadFrom d s := by
  unfold decode.three at h
  split at h
  next => cases h
  next a ha =>
    split at h
    next => cases h
    next b hb =>
      split at h
      next => cases h
      next c hc =>
        cases h
        refine ⟨(hmake a b c).1 ▸ hop, fun j x hx => ?_, rfl⟩
        rw [(hmake a b c).2] at hx
        match j with
        | 0 => cases hx; exact ha
        | 1 => cases hx; exact hb
        | 2 => cases hx; exact hc
        | j + 3 => cases hx

end

/-- An instruction is read off the words that it covers: one for the operation,
and one for each argument. -/
theorem readFrom_of_decode (h : decode s = .ok d) : ReadFrom d s := by
  unfold decode at h
  split at h
  next => cases h
  next op hop =>
    cases op <;>
      first
      | exact done_readFrom hop h ⟨rfl, rfl⟩
      | exact one_readFrom hop h fun _ => ⟨rfl, rfl⟩
      | exact two_readFrom hop h fun _ _ => ⟨rfl, rfl⟩
      | exact three_readFrom hop h fun _ _ _ => ⟨rfl, rfl⟩

theorem decode_length (h : decode s = .ok d) : d.length = d.instruction.length :=
  (readFrom_of_decode h).length

/-- Every instruction takes at least the word of its operation. -/
theorem decode_length_pos (h : decode s = .ok d) : 0 < d.length := by
  rw [decode_length h]
  exact Nat.add_pos_left Nat.one_pos _

theorem Instruction.length_le (i : Instruction) : i.length ≤ 4 := by
  unfold length
  cases i <;> simp [args]

/-- No instruction of the Synacor machine has more than three arguments. -/
theorem decode_length_le (h : decode s = .ok d) : d.length ≤ 4 := by
  rw [decode_length h]
  exact d.instruction.length_le

end Synacor

end Retrocore
