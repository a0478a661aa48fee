import Retrocore.Proofs.Memory.Propagation

/-!
# Words on a stack

A stack grows downwards: a word is pushed to the two cells below the stack pointer, low byte first.
The pointer may stand anywhere. At 0 both cells are the last of the address space, and at 1 one of
them is the first and the other the last.

All other cells are off the stack (`OffStack`). Pushing a word leaves them alone, and so an
instruction that stands there.
-/

namespace Retrocore

/-- The cell is none of the two that a word is pushed to. -/
def OffStack (sp a : Word) : Prop := a ≠ sp - 1 ∧ a ≠ sp - 2

instance (sp a : Word) : Decidable (OffStack sp a) :=
  inferInstanceAs (Decidable (a ≠ sp - 1 ∧ a ≠ sp - 2))

theorem sub_two_add_one (sp : Word) : sp - 2 + 1 = sp - 1 := by
  grind

/-- The two bytes of a word are in different cells. -/
theorem ne_add_one (a : Word) : a ≠ a + 1 := by
  intro h
  have hnat := congrArg UInt16.toNat h
  rw [UInt16.toNat_add] at hnat
  have ha := a.toNat_lt
  have hone : (1 : Word).toNat = 1 := rfl
  omega

namespace Memory

variable {μ : Type} [Mapper μ Byte] {m : Memory μ Byte}

/-- Writing a word leaves a plain memory plain. -/
theorem Plain.writeWord (h : m.Plain) (a v : Word) : (m.writeWord a v).Plain :=
  (h.write a _).write (a + 1) _

/-- A word is read as it was written, also around the end of the memory. -/
theorem Plain.readWord_writeWord (h : m.Plain) (a v : Word) :
    (m.writeWord a v).readWord a = (v, m.writeWord a v) := by
  have hhigh : (m.writeWord a v).value (a + 1) = highByte v := by
    refine ((h.write a _).value_write ..).trans ?_
    rw [if_pos rfl]
  have hlow : (m.writeWord a v).value a = lowByte v := by
    refine ((h.write a _).value_write ..).trans ?_
    rw [if_neg (ne_add_one a).symm, h.value_write, if_pos rfl]
  rw [(h.writeWord a v).quiet.readWord, hhigh, hlow, wordOf_highByte_lowByte]

/-- Pushing a word changes two cells at most. -/
theorem Plain.value_pushed (h : m.Plain) {sp a : Word} (hoff : OffStack sp a) (v : Word) :
    (m.writeWord (sp - 2) v).value a = m.value a := by
  obtain ⟨hhigh, hlow⟩ := hoff
  unfold Memory.writeWord
  rw [(h.write _ _).value_write, h.value_write, sub_two_add_one, if_neg hhigh.symm, if_neg hlow.symm]

/-- What stands off the stack stands there still. -/
theorem Plain.stream_pushed (h : m.Plain) {sp pc : Word} {n : Nat}
    (hoff : ∀ j < n, OffStack sp (pc + UInt16.ofNat j)) (v : Word) :
    ∀ j < n, (m.writeWord (sp - 2) v).stream pc j = m.stream pc j := by
  intro j hj
  rw [(h.writeWord _ v).quiet.stream, h.quiet.stream]
  exact h.value_pushed (hoff j hj) v

end Memory

end Retrocore
