import Retrocore.Proofs.Binary.CarryChains

/-!
# What the flags tell of sums and differences

A carry is one of unsigned numbers, and sign and overflow are about signed ones; yet all of
them are made from the same bits. The whole result is never formed: overflow is read off the
top bits of the operands and of the result, which has wrapped by then. That this tells
whether the signed result fits, also when a carry or a borrow comes in on top, holds at every
width (`addOverflows_iff`, `subOverflows_iff`), and so does the rule that comparisons rest on:
a difference is negative if and only if it shows the sign or has overflowed, but not both
(`sign_ne_overflow_iff`).

The argument starts from what the wrapped result and the carry are together
(`addBytes_exact` and its like), and asks on which side of the middle of the range the
operands and the result lie.

`arithmetic_flags_exact` goes through the instructions and says what all of their flags tell.
-/

namespace Retrocore

/-! ## Signed numbers -/

/-- What a number stands for as a two's complement of the given width. -/
def signedOf (width n : Nat) : Int := Int.bmod n (2 ^ width)

/-- A two's complement of the given width can hold the number. -/
def FitsSigned (width : Nat) (x : Int) : Prop :=
  -(2 ^ (width - 1) : Nat) ≤ x ∧ x < (2 ^ (width - 1) : Nat)

/-- From the middle of the range on numbers are negative. -/
theorem signedOf_eq {bit n : Nat} (h : n < 2 ^ (bit + 1)) :
    signedOf (bit + 1) n =
      if n < 2 ^ bit then (n : Int) else n - 2 * (2 ^ bit : Nat) := by
  have hpos : 0 < 2 ^ bit := Nat.two_pow_pos bit
  unfold signedOf
  rw [Nat.pow_succ'] at h ⊢
  generalize 2 ^ bit = middle at *
  rw [Int.bmod_def, Int.emod_eq_of_lt (by omega) (by omega)]
  split <;> split <;> omega

/-- A byte read as a signed number is the two's complement of its value. -/
theorem toInt_toInt8 (v : Byte) : v.toInt8.toInt = signedOf 8 v.toNat :=
  BitVec.toInt_eq_toNat_bmod _

/-- The top bit says in which half of its range a number is. -/
theorem testBit_top {bit n : Nat} (h : n < 2 ^ (bit + 1)) :
    n.testBit bit = decide (2 ^ bit ≤ n) := by
  have hpos : 0 < 2 ^ bit := Nat.two_pow_pos bit
  rw [Nat.pow_succ'] at h
  rw [Nat.testBit_eq_decide_div_mod_eq]
  by_cases hle : 2 ^ bit ≤ n
  · have hone : n / 2 ^ bit = 1 := Nat.div_eq_of_lt_le (by omega) (by omega)
    simp [hone, hle]
  · have hzero : n / 2 ^ bit = 0 := Nat.div_eq_of_lt (by omega)
    simp [hzero, hle]

section Overflow

variable {bit a b res : Nat} {c k : Bool} (ha : a < 2 ^ (bit + 1)) (hb : b < 2 ^ (bit + 1))
  (hres : res < 2 ^ (bit + 1))
include ha hb hres

/-- A sum has the wrong sign if and only if it does not fit. -/
theorem addOverflows_iff (hsum : res + 2 ^ (bit + 1) * k.toNat = a + b + c.toNat) :
    addOverflows bit a b res = true ↔
      ¬ FitsSigned (bit + 1) (signedOf (bit + 1) a + signedOf (bit + 1) b + c.toNat) := by
  have hc := c.toNat_le
  unfold addOverflows FitsSigned
  rw [testBit_top ha, testBit_top hb, testBit_top hres, signedOf_eq ha, signedOf_eq hb,
    Nat.add_sub_cancel]
  rw [Nat.pow_succ'] at *
  generalize 2 ^ bit = middle at *
  -- on which side of the middle the three lie, and whether the sum has wrapped
  by_cases hca : middle ≤ a <;> by_cases hcb : middle ≤ b <;> by_cases hcr : middle ≤ res <;>
    cases k <;> simp [hca, hcb, hcr] <;> simp at hsum <;> omega

variable (hdifference : res + b + c.toNat = a + 2 ^ (bit + 1) * k.toNat)
include hdifference

/-- A difference has the wrong sign if and only if it does not fit. -/
theorem subOverflows_iff :
    subOverflows bit a b res = true ↔
      ¬ FitsSigned (bit + 1) (signedOf (bit + 1) a - signedOf (bit + 1) b - c.toNat) := by
  have hc := c.toNat_le
  unfold subOverflows FitsSigned
  rw [testBit_top ha, testBit_top hb, testBit_top hres, signedOf_eq ha, signedOf_eq hb,
    Nat.add_sub_cancel]
  rw [Nat.pow_succ'] at *
  generalize 2 ^ bit = middle at *
  by_cases hca : middle ≤ a <;> by_cases hcb : middle ≤ b <;> by_cases hcr : middle ≤ res <;>
    cases k <;> simp [hca, hcb, hcr] <;> simp at hdifference <;> omega

/-- Either a negative difference shows the sign, or it has the wrong one. -/
theorem sign_ne_overflow_iff :
    res.testBit bit ≠ subOverflows bit a b res ↔
      signedOf (bit + 1) a - signedOf (bit + 1) b - c.toNat < 0 := by
  have hc := c.toNat_le
  unfold subOverflows
  rw [testBit_top ha, testBit_top hb, testBit_top hres, signedOf_eq ha, signedOf_eq hb]
  rw [Nat.pow_succ'] at *
  generalize 2 ^ bit = middle at *
  by_cases hca : middle ≤ a <;> by_cases hcb : middle ≤ b <;> by_cases hcr : middle ≤ res <;>
    cases k <;> simp [hca, hcb, hcr] <;> simp at hdifference <;> omega

end Overflow

/-! ## The flags of the Z80 -/

namespace Z80.Flags

/-- What the flags tell of a sum of two numbers and a carry. The low `half` bits are those
that the half carry is about, and X and Y are bits of `leak`. -/
structure TellSum (f : Flags) (width half a b : Nat) (c : Bool) (res : Nat) (leak : Byte) :
    Prop where
  result : res = (a + b + c.toNat) % 2 ^ width
  sign : f.sign = res.testBit (width - 1)
  zero : f.zero = true ↔ res = 0
  overflow : f.parity = true ↔ ¬ FitsSigned width (signedOf width a + signedOf width b + c.toNat)
  halfCarry : f.halfCarry = true ↔ 2 ^ half ≤ a % 2 ^ half + b % 2 ^ half + c.toNat
  subtract : f.subtract = false
  carry : f.carry = true ↔ 2 ^ width ≤ a + b + c.toNat
  x : f.x = leak.bit 3
  y : f.y = leak.bit 5

/-- What the flags tell of a difference of two numbers and a borrow. -/
structure TellDifference (f : Flags) (width half a b : Nat) (c : Bool) (res : Nat)
    (leak : Byte) : Prop where
  result : (res : Int) = ((a : Int) - b - c.toNat) % 2 ^ width
  sign : f.sign = res.testBit (width - 1)
  zero : f.zero = true ↔ res = 0
  overflow : f.parity = true ↔ ¬ FitsSigned width (signedOf width a - signedOf width b - c.toNat)
  halfBorrow : f.halfCarry = true ↔ a % 2 ^ half < b % 2 ^ half + c.toNat
  subtract : f.subtract = true
  borrow : f.carry = true ↔ (a : Int) - b - c.toNat < 0
  negative : f.sign ≠ f.parity ↔ signedOf width a - signedOf width b - c.toNat < 0
  x : f.x = leak.bit 3
  y : f.y = leak.bit 5

section Made

variable {bit half a b res : Nat} {c z : Bool} {leak : Byte} (ha : a < 2 ^ (bit + 1))
  (hb : b < 2 ^ (bit + 1)) (hres : res < 2 ^ (bit + 1)) (hzero : z = true ↔ res = 0)
include ha hb hres hzero

/-- The flags that the adders make, of an exact sum. -/
theorem tellSum_of_exact
    (hsum : res + 2 ^ (bit + 1) * (carriesOutOf bit a b c).toNat = a + b + c.toNat) :
    TellSum
      { sign := res.testBit bit
        zero := z
        y := leak.bit 5
        halfCarry := carriesOutOf half a b c
        x := leak.bit 3
        parity := addOverflows bit a b res
        subtract := false
        carry := carriesOutOf bit a b c }
      (bit + 1) (half + 1) a b c res leak where
  result := by rw [← hsum, Nat.add_mul_mod_self_left, Nat.mod_eq_of_lt hres]
  sign := rfl
  zero := hzero
  overflow := addOverflows_iff ha hb hres hsum
  halfCarry := decide_eq_true_iff
  subtract := rfl
  carry := by
    show decide (2 ^ (bit + 1) ≤ a % 2 ^ (bit + 1) + b % 2 ^ (bit + 1) + c.toNat) = true ↔ _
    rw [decide_eq_true_iff, Nat.mod_eq_of_lt ha, Nat.mod_eq_of_lt hb]
  x := rfl
  y := rfl

/-- The flags that the subtractors make, of an exact difference. -/
theorem tellDifference_of_exact
    (hdifference : res + b + c.toNat = a + 2 ^ (bit + 1) * (borrowsInto bit a b c).toNat) :
    TellDifference
      { sign := res.testBit bit
        zero := z
        y := leak.bit 5
        halfCarry := borrowsInto half a b c
        x := leak.bit 3
        parity := subOverflows bit a b res
        subtract := true
        carry := borrowsInto bit a b c }
      (bit + 1) (half + 1) a b c res leak where
  result := by
    have hcast : (a : Int) - b - c.toNat =
        res - 2 ^ (bit + 1) * (borrowsInto bit a b c).toNat := by
      have hcast : (_ : Int) = _ := congrArg Nat.cast hdifference
      push_cast at hcast
      linear_combination -hcast
    have hlt : (res : Int) < 2 ^ (bit + 1) := by exact_mod_cast hres
    rw [hcast, Int.sub_mul_emod_self_left, Int.emod_eq_of_lt (Int.natCast_nonneg _) hlt]
  sign := rfl
  zero := hzero
  overflow := subOverflows_iff ha hb hres hdifference
  halfBorrow := decide_eq_true_iff
  subtract := rfl
  borrow := by
    show decide (a % 2 ^ (bit + 1) < b % 2 ^ (bit + 1) + c.toNat) = true ↔ _
    rw [decide_eq_true_iff, Nat.mod_eq_of_lt ha, Nat.mod_eq_of_lt hb]
    omega
  negative := sign_ne_overflow_iff ha hb hres hdifference
  x := rfl
  y := rfl

end Made

theorem byte_beq_zero (v : Byte) : (v == 0) = true ↔ v.toNat = 0 := by
  rw [beq_iff_eq, ← UInt8.toNat_inj, UInt8.toNat_zero]

theorem word_beq_zero (v : Word) : (v == 0) = true ↔ v.toNat = 0 := by
  rw [beq_iff_eq, ← UInt16.toNat_inj, UInt16.toNat_zero]

/-- What ADC on bytes says about the sum. -/
theorem tellSum_add8 (a b : Byte) (c : Bool) :
    (add8 a b c).2.TellSum 8 4 a.toNat b.toNat c (add8 a b c).1.toNat (add8 a b c).1 :=
  tellSum_of_exact a.toNat_lt b.toNat_lt (UInt8.toNat_lt _) (byte_beq_zero _)
    (addBytes_exact a b c)

/-- What SBC on bytes says about the difference. -/
theorem tellDifference_sub8 (a b : Byte) (c : Bool) :
    (sub8 a b c).2.TellDifference 8 4 a.toNat b.toNat c (sub8 a b c).1.toNat (sub8 a b c).1 :=
  tellDifference_of_exact a.toNat_lt b.toNat_lt (UInt8.toNat_lt _) (byte_beq_zero _)
    (subBytes_exact a b c)

/-- A comparison shows bits of the operand where a subtraction shows bits of the result. -/
theorem tellDifference_cp8 (a b : Byte) :
    (cp8 a b).TellDifference 8 4 a.toNat b.toNat false (a - b).toNat b := by
  have hres : subBytes a b false = a - b := UInt8.sub_zero _
  rw [← hres]
  exact tellDifference_of_exact a.toNat_lt b.toNat_lt (UInt8.toNat_lt _) (byte_beq_zero _)
    (subBytes_exact a b false)

/-- What ADC on words says about the sum. -/
theorem tellSum_adc16 (a b : Word) (c : Bool) :
    (adc16 a b c).2.TellSum 16 12 a.toNat b.toNat c (adc16 a b c).1.toNat
      (highByte (adc16 a b c).1) :=
  tellSum_of_exact a.toNat_lt b.toNat_lt (UInt16.toNat_lt _) (word_beq_zero _)
    (addWords_exact a b c)

/-- What SBC on words says about the difference. -/
theorem tellDifference_sbc16 (a b : Word) (c : Bool) :
    (sbc16 a b c).2.TellDifference 16 12 a.toNat b.toNat c (sbc16 a b c).1.toNat
      (highByte (sbc16 a b c).1) :=
  tellDifference_of_exact a.toNat_lt b.toNat_lt (UInt16.toNat_lt _) (word_beq_zero _)
    (subWords_exact a b c)

/-- What the flags tell of the sum of two pairs: sign, zero and overflow are as before. -/
theorem add16_eq (f : Flags) (a b : Word) :
    f.add16 a b = (a + b,
      { f with
        halfCarry := decide (2 ^ 12 ≤ a.toNat % 2 ^ 12 + b.toNat % 2 ^ 12)
        subtract := false
        carry := decide (2 ^ 16 ≤ a.toNat + b.toNat)
        x := (highByte (a + b)).bit 3
        y := (highByte (a + b)).bit 5 }) := by
  have hcarry : carriesOutOf 15 a.toNat b.toNat false = decide (2 ^ 16 ≤ a.toNat + b.toNat) := by
    show decide (2 ^ 16 ≤ a.toNat % 2 ^ 16 + b.toNat % 2 ^ 16 + 0) = _
    rw [Nat.mod_eq_of_lt a.toNat_lt, Nat.mod_eq_of_lt b.toNat_lt, Nat.add_zero]
  unfold add16
  rw [hcarry]
  rfl

end Z80.Flags

/-! ## The stack pointer of the LR35902 -/

namespace Lr35902.Flags

/-- Extending an offset leaves its low byte alone. -/
theorem toNat_signExtend (e : Byte) :
    (signExtend e).toNat = if e.toNat < 128 then e.toNat else 65280 + e.toNat := by
  have hlt : e < 0x80 ↔ e.toNat < 128 := UInt8.lt_iff_toNat_lt
  unfold signExtend
  by_cases h : e < 0x80
  · rw [if_pos h, if_pos (hlt.mp h), UInt8.toNat_toUInt16]
  · rw [if_neg h, if_neg fun hnat => h (hlt.mpr hnat)]
    exact toNat_wordOf 0xff e

/-- An offset moves the stack pointer up or down, but the carries are those of its low
byte, taken as a number without a sign. -/
theorem addSp_eq (sp : Word) (e : Byte) :
    ((addSp sp e).1.toNat : Int) = (sp.toNat + e.toInt8.toInt) % 2 ^ 16 ∧
    (addSp sp e).2 =
      { zero := false
        subtract := false
        halfCarry := decide (2 ^ 4 ≤ sp.toNat % 2 ^ 4 + e.toNat % 2 ^ 4)
        carry := decide (2 ^ 8 ≤ sp.toNat % 2 ^ 8 + e.toNat) } := by
  have he := e.toNat_lt
  have hoffset := toNat_signExtend e
  constructor
  · have hsum : (addSp sp e).1.toNat = (sp.toNat + (signExtend e).toNat) % 65536 :=
      UInt16.toNat_add ..
    have hsigned : signedOf 8 e.toNat = _ := @signedOf_eq 7 _ he
    rw [hsum, hoffset, toInt_toInt8, hsigned]
    split <;> push_cast <;> omega
  · have hhalf : (signExtend e).toNat % 2 ^ 4 = e.toNat % 2 ^ 4 := by
      rw [hoffset]
      split <;> omega
    have hlow : (signExtend e).toNat % 2 ^ 8 = e.toNat := by
      rw [hoffset]
      split <;> omega
    show Flags.mk _ _ (decide (2 ^ 4 ≤ sp.toNat % 2 ^ 4 + (signExtend e).toNat % 2 ^ 4 + 0))
      (decide (2 ^ 8 ≤ sp.toNat % 2 ^ 8 + (signExtend e).toNat % 2 ^ 8 + 0)) = _
    rw [hhalf, hlow]
    rfl

end Lr35902.Flags

/-! ## All of them -/

open Z80.Flags in
/-- **The flags tell the truth about the result**, for all operands and whatever is carried
in. The adders and subtractors make all eight flags anew, whatever they were before, and the
addition of pairs keeps three of them. On the LR35902, what is added to the stack pointer is
signed, but its carries are not. -/
theorem arithmetic_flags_exact :
    (∀ a b c, (add8 a b c).2.TellSum 8 4 a.toNat b.toNat c (add8 a b c).1.toNat (add8 a b c).1) ∧
    (∀ a b c, (sub8 a b c).2.TellDifference 8 4 a.toNat b.toNat c (sub8 a b c).1.toNat
      (sub8 a b c).1) ∧
    (∀ a b, (cp8 a b).TellDifference 8 4 a.toNat b.toNat false (a - b).toNat b) ∧
    (∀ a b c, (adc16 a b c).2.TellSum 16 12 a.toNat b.toNat c (adc16 a b c).1.toNat
      (highByte (adc16 a b c).1)) ∧
    (∀ a b c, (sbc16 a b c).2.TellDifference 16 12 a.toNat b.toNat c (sbc16 a b c).1.toNat
      (highByte (sbc16 a b c).1)) ∧
    (∀ (f : Z80.Flags) a b, f.add16 a b = (a + b,
      { f with
        halfCarry := decide (2 ^ 12 ≤ a.toNat % 2 ^ 12 + b.toNat % 2 ^ 12)
        subtract := false
        carry := decide (2 ^ 16 ≤ a.toNat + b.toNat)
        x := (highByte (a + b)).bit 3
        y := (highByte (a + b)).bit 5 })) ∧
    (∀ sp e,
      ((Lr35902.Flags.addSp sp e).1.toNat : Int) = (sp.toNat + e.toInt8.toInt) % 2 ^ 16 ∧
      (Lr35902.Flags.addSp sp e).2 =
        { zero := false
          subtract := false
          halfCarry := decide (2 ^ 4 ≤ sp.toNat % 2 ^ 4 + e.toNat % 2 ^ 4)
          carry := decide (2 ^ 8 ≤ sp.toNat % 2 ^ 8 + e.toNat) }) := by
  refine ⟨?_, ?_, ?_, ?_, ?_, ?_, ?_⟩
  · exact tellSum_add8
  · exact tellDifference_sub8
  · exact tellDifference_cp8
  · exact tellSum_adc16
  · exact tellDifference_sbc16
  · exact add16_eq
  · exact Lr35902.Flags.addSp_eq

/-- The least number less the greatest and a borrow: it wraps to zero, which is not negative
although the difference is. -/
example : Z80.Flags.sub8 0x80 0x7f true =
    (0, { zero := true, halfCarry := true, parity := true, subtract := true }) := by
  decide

end Retrocore
