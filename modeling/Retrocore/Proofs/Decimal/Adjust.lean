import Retrocore.I8080.Flags
import Retrocore.Lr35902.Flags
import Retrocore.Proofs.Decimal.Packed
import Retrocore.Z80.Flags

/-!
# Decimal adjustment

The 8080, the Z80 and the LR35902 add and subtract packed decimal numbers in two
steps a byte: the binary operation with the carry of the byte before, then DAA,
which makes decimal digits of the result and the carry for the byte behind.

The three adjustments are written differently. After an addition they all do the
same (`adjustUp`), and after a subtraction of packed bytes so do the two that
know of subtractions (`adjustDown`). It is enough to look at these two
(`adjustUp_pairs`, `adjustDown_pairs`); `decimals_right` is about numbers of any
length.
-/

namespace Retrocore

/-! ## The two halves of a byte -/

/-- The low digit of a byte. -/
theorem toNat_and_0x0f (v : Byte) : (v &&& 0x0f).toNat = v.toNat % 16 := by
  rw [UInt8.toNat_and]
  exact Nat.and_two_pow_sub_one_eq_mod v.toNat 4

/-- The high digit of a byte. -/
theorem toNat_shiftRight_4 (v : Byte) : (v >>> 4).toNat = v.toNat / 16 := by
  rw [UInt8.toNat_shiftRight]
  exact Nat.shiftRight_eq_div_pow v.toNat 4

theorem toNat_decide (p : Prop) [Decidable p] : (decide p).toNat = if p then 1 else 0 :=
  Bool.cond_decide p 1 0

/-- Six for the high digit, and six for the low one. -/
def sixes (high low : Bool) : Byte := (if high then 0x60 else 0) ||| (if low then 0x06 else 0)

/-- What DAA adds: six for each digit to be adjusted. -/
theorem toNat_sixes (high low : Bool) :
    (sixes high low).toNat = (if high then 0x60 else 0) + (if low then 0x06 else 0) := by
  revert high low
  decide

/-- The cores add the sixes one after the other. -/
theorem add_sixes (v : Byte) (high low : Bool) :
    v + (if high then 0x60 else 0) + (if low then 0x06 else 0) = v + sixes high low := by
  have h : ∀ high low : Bool,
      (if high then 0x60 else 0) + (if low then 0x06 else 0) = sixes high low := by decide
  rw [UInt8.add_assoc, h]

/-- Or take them off one after the other. -/
theorem sub_sixes (v : Byte) (high low : Bool) :
    v - (if high then 0x60 else 0) - (if low then 0x06 else 0) = v - sixes high low := by
  have h : ∀ high low : Bool,
      -(if high then 0x60 else 0) + -(if low then 0x06 else 0) = -sixes high low := by decide
  rw [UInt8.sub_eq_add_neg, UInt8.sub_eq_add_neg, UInt8.add_assoc, h, ← UInt8.sub_eq_add_neg]

/-! ## Upwards -/

/-- The adjustment after an addition: six more for each digit that is no decimal
one, or that has carried into the next. -/
def adjustUp (v : Byte) (half carry : Bool) : Byte × Bool :=
  let high := carry || v > 0x99
  (v + sixes high (half || v &&& 0x0f > 9), high)

/-- The digits of a sum, each with its six if it carries. -/
theorem sum_digits {xh xl yh yl c r : Nat} (hxh : xh ≤ 9) (hxl : xl ≤ 9) (hyh : yh ≤ 9)
    (hyl : yl ≤ 9) (hc : c ≤ 1)
    (hr : r = (16 * xh + xl + (16 * yh + yl) + c +
      (if 100 ≤ 10 * xh + xl + (10 * yh + yl) + c then 0x60 else 0) +
      (if 10 ≤ xl + yl + c then 0x06 else 0)) % 256) :
    (r / 16 ≤ 9 ∧ r % 16 ≤ 9) ∧
    10 * (r / 16) + r % 16 + 100 * (if 100 ≤ 10 * xh + xl + (10 * yh + yl) + c then 1 else 0) =
      10 * xh + xl + (10 * yh + yl) + c := by
  split at hr <;> split at hr <;> simp only [*, if_true, if_false] <;> omega

variable {x y : Byte}

/-- DAA finds out from carry and byte whether the sum has come to a hundred. -/
theorem adjustUp_carry (hx : IsPacked x) (hy : IsPacked y) (c : Bool) :
    (carriesOutOf 7 x.toNat y.toNat c || decide (addBytes x y c > 0x99)) =
      decide (100 ≤ pairValue x + pairValue y + c.toNat) := by
  obtain ⟨hxhigh, hxlow⟩ := hx
  obtain ⟨hyhigh, hylow⟩ := hy
  have hxlt := x.toNat_lt
  have hylt := y.toNat_lt
  have hc := c.toNat_le
  unfold carriesOutOf pairValue
  rw [← Bool.decide_or, decide_eq_decide]
  simp only [gt_iff_lt, UInt8.lt_iff_toNat_lt, toNat_addBytes]
  simp
  omega

/-- DAA finds out from half carry and low digit whether the low digits have come to
ten. -/
theorem adjustUp_half (hx : IsPacked x) (hy : IsPacked y) (c : Bool) :
    (halfCarry x y c || decide (addBytes x y c &&& 0x0f > 9)) =
      decide (10 ≤ x.toNat % 16 + y.toNat % 16 + c.toNat) := by
  obtain ⟨_, hxlow⟩ := hx
  obtain ⟨_, hylow⟩ := hy
  have hc := c.toNat_le
  unfold halfCarry carriesOutOf
  rw [← Bool.decide_or, decide_eq_decide]
  simp only [gt_iff_lt, UInt8.lt_iff_toNat_lt, toNat_and_0x0f, toNat_addBytes]
  simp
  omega

/-- So the adjusted sum is the decimal one, with a carry for the hundred. -/
theorem adjustUp_pairs (hx : IsPacked x) (hy : IsPacked y) (c : Bool) :
    let r := adjustUp (addBytes x y c) (halfCarry x y c) (carriesOutOf 7 x.toNat y.toNat c)
    IsPacked r.1 ∧ pairValue r.1 + 100 * r.2.toNat = pairValue x + pairValue y + c.toNat := by
  intro r
  have hcarry : r.2 = decide (100 ≤ pairValue x + pairValue y + c.toNat) :=
    adjustUp_carry hx hy c
  have hbyte : r.1.toNat = (x.toNat + y.toNat + c.toNat +
      (if 100 ≤ pairValue x + pairValue y + c.toNat then 0x60 else 0) +
      (if 10 ≤ x.toNat % 16 + y.toNat % 16 + c.toNat then 0x06 else 0)) % 256 := by
    show (addBytes x y c + sixes r.2 _).toNat = _
    rw [adjustUp_half hx hy, hcarry, UInt8.toNat_add, toNat_sixes, toNat_addBytes]
    simp only [decide_eq_true_eq]
    omega
  rw [hcarry, toNat_decide]
  refine sum_digits hx.1 hx.2 hy.1 hy.2 c.toNat_le ?_
  rw [Nat.div_add_mod, Nat.div_add_mod]
  exact hbyte

/-! ## Downwards -/

/-- The adjustment after a subtraction: six less for each digit that has
borrowed. -/
def adjustDown (v : Byte) (half carry : Bool) : Byte × Bool :=
  (v - sixes carry half, carry)

/-- The digits of a difference, each less its six if it borrows. -/
theorem difference_digits {xh xl yh yl c r : Nat} (hxh : xh ≤ 9) (hxl : xl ≤ 9) (hyh : yh ≤ 9)
    (hyl : yl ≤ 9) (hc : c ≤ 1)
    (hr : r = (16 * xh + xl + 1024 - (16 * yh + yl) - c -
      (if 16 * xh + xl < 16 * yh + yl + c then 0x60 else 0) -
      (if xl < yl + c then 0x06 else 0)) % 256) :
    (r / 16 ≤ 9 ∧ r % 16 ≤ 9) ∧
    10 * (r / 16) + r % 16 + (10 * yh + yl) + c =
      10 * xh + xl + 100 * (if 16 * xh + xl < 16 * yh + yl + c then 1 else 0) := by
  split at hr <;> split at hr <;> simp only [*, if_true, if_false] <;> omega

/-- A byte borrows if it is the smaller. -/
theorem borrowsInto_7 (x y : Byte) (c : Bool) :
    borrowsInto 7 x.toNat y.toNat c = decide (x.toNat < y.toNat + c.toNat) := by
  have hxlt := x.toNat_lt
  have hylt := y.toNat_lt
  unfold borrowsInto
  rw [decide_eq_decide]
  simp

/-- Its low digit borrows if that is the smaller. -/
theorem halfBorrow_eq (x y : Byte) (c : Bool) :
    halfBorrow x y c = decide (x.toNat % 16 < y.toNat % 16 + c.toNat) := rfl

/-- The adjusted difference is the decimal one, with a borrow for the hundred. -/
theorem adjustDown_pairs (hx : IsPacked x) (hy : IsPacked y) (c : Bool) :
    let r := adjustDown (subBytes x y c) (halfBorrow x y c) (borrowsInto 7 x.toNat y.toNat c)
    IsPacked r.1 ∧ pairValue r.1 + pairValue y + c.toNat = pairValue x + 100 * r.2.toNat := by
  intro r
  have hxlt := x.toNat_lt
  have hylt := y.toNat_lt
  have hc := c.toNat_le
  have hcarry : r.2 = decide (x.toNat < y.toNat + c.toNat) := borrowsInto_7 x y c
  have hbyte : r.1.toNat = (x.toNat + 1024 - y.toNat - c.toNat -
      (if x.toNat < y.toNat + c.toNat then 0x60 else 0) -
      (if x.toNat % 16 < y.toNat % 16 + c.toNat then 0x06 else 0)) % 256 := by
    show (subBytes x y c - sixes r.2 _).toNat = _
    rw [halfBorrow_eq, hcarry, UInt8.toNat_sub, toNat_sixes, toNat_subBytes]
    simp only [decide_eq_true_eq]
    split <;> split <;> omega
  rw [hcarry, toNat_decide]
  have hdigits := difference_digits (r := r.1.toNat) hx.1 hx.2 hy.1 hy.2 hc
  rw [Nat.div_add_mod, Nat.div_add_mod] at hdigits
  exact hdigits hbyte

/-- A digit of a difference of packed bytes is too big only if it has borrowed. -/
theorem subBytes_over (hx : IsPacked x) (c : Bool) (h : subBytes x y c > 0x99) :
    borrowsInto 7 x.toNat y.toNat c = true := by
  obtain ⟨hxhigh, hxlow⟩ := hx
  have hxlt := x.toNat_lt
  have hylt := y.toNat_lt
  have hc := c.toNat_le
  rw [gt_iff_lt, UInt8.lt_iff_toNat_lt, toNat_subBytes] at h
  rw [borrowsInto_7, decide_eq_true_eq]
  simp at h
  omega

/-- A low digit above nine can only come of a borrow. -/
theorem subBytes_low_over (hx : IsPacked x) (c : Bool) (h : subBytes x y c &&& 0x0f > 9) :
    halfBorrow x y c = true := by
  obtain ⟨_, hxlow⟩ := hx
  have hylt := y.toNat_lt
  have hc := c.toNat_le
  rw [gt_iff_lt, UInt8.lt_iff_toNat_lt, toNat_and_0x0f, toNat_subBytes] at h
  rw [halfBorrow_eq, decide_eq_true_eq]
  simp at h
  omega

/-! ## The three processors -/

section Pairs

variable {φ : Type} {op : φ → Byte → Byte → Byte × φ} {carry : φ → Bool}

/-- An operation that adds and adjusts upwards. -/
theorem CombinesPairs.of_up
    (h : ∀ f x y, ((op f x y).1, carry (op f x y).2) =
      adjustUp (addBytes x y (carry f)) (halfCarry x y (carry f))
        (carriesOutOf 7 x.toNat y.toNat (carry f))) :
    CombinesPairs 1 op carry := by
  intro f x y hx hy
  have hpairs := adjustUp_pairs hx hy (carry f)
  rw [← h f x y] at hpairs
  obtain ⟨hpacked, hsum⟩ := hpairs
  refine ⟨hpacked, ?_⟩
  dsimp only at hsum
  omega

/-- An operation that subtracts and, packed bytes given, adjusts downwards. -/
theorem CombinesPairs.of_down
    (h : ∀ f x y, IsPacked x → ((op f x y).1, carry (op f x y).2) =
      adjustDown (subBytes x y (carry f)) (halfBorrow x y (carry f))
        (borrowsInto 7 x.toNat y.toNat (carry f))) :
    CombinesPairs (-1) op carry := by
  intro f x y hx hy
  have hpairs := adjustDown_pairs hx hy (carry f)
  rw [← h f x y hx] at hpairs
  obtain ⟨hpacked, hdifference⟩ := hpairs
  refine ⟨hpacked, ?_⟩
  dsimp only at hdifference
  omega

end Pairs

namespace I8080.Flags

/-- The 8080 looks at the digits one by one, and adds the sixes with its adder. -/
theorem daa_eq (f : Flags) (v : Byte) :
    ((f.daa v).1, (f.daa v).2.carry) = adjustUp v f.auxCarry f.carry := by
  have hcarry : (f.carry || v >>> 4 > 9 || (v >>> 4 ≥ 9 && v &&& 0x0f > 9)) =
      (f.carry || decide (v > 0x99)) := by
    rw [Bool.or_assoc, ← Bool.decide_and, ← Bool.decide_or]
    congr 1
    rw [decide_eq_decide]
    simp only [gt_iff_lt, ge_iff_le, UInt8.lt_iff_toNat_lt, UInt8.le_iff_toNat_le,
      toNat_and_0x0f, toNat_shiftRight_4]
    simp
    omega
  have hres : ∀ d : Byte, (add v d false).1 = v + d := fun d => UInt8.add_zero _
  unfold daa adjustUp sixes
  simp only [hcarry, hres, UInt8.or_comm]

/-- An operation on the accumulator with DAA after it. -/
def adjusted (op : AluOp) (f : Flags) (a v : Byte) : Byte × Flags :=
  (f.alu op a v).2.daa (f.alu op a v).1

/-- ADC and DAA on the 8080. -/
theorem adc_adjusted (f : Flags) (a v : Byte) :
    ((f.adjusted .adc a v).1, (f.adjusted .adc a v).2.carry) =
      adjustUp (addBytes a v f.carry) (halfCarry a v f.carry)
        (carriesOutOf 7 a.toNat v.toNat f.carry) :=
  daa_eq (add a v f.carry).2 (addBytes a v f.carry)

end I8080.Flags

namespace Z80.Flags

/-- After an addition the Z80 adjusts upwards. -/
theorem daa_of_add {f : Flags} (h : f.subtract = false) (v : Byte) :
    ((f.daa v).1, (f.daa v).2.carry) = adjustUp v f.halfCarry f.carry := by
  unfold daa
  simp only [h, Bool.false_eq_true, if_false]
  rfl

/-- After a subtraction of decimals it adjusts downwards, as the flags of the
subtraction say. -/
theorem daa_of_sub {f : Flags} {v : Byte} (h : f.subtract = true)
    (hover : v > 0x99 → f.carry = true) (hlow : v &&& 0x0f > 9 → f.halfCarry = true) :
    ((f.daa v).1, (f.daa v).2.carry) = adjustDown v f.halfCarry f.carry := by
  have hcarry : (f.carry || decide (v > 0x99)) = f.carry := by
    rw [Bool.or_eq_left_iff_imp, decide_eq_true_eq]
    exact hover
  have hhalf : (f.halfCarry || decide (v &&& 0x0f > 9)) = f.halfCarry := by
    rw [Bool.or_eq_left_iff_imp, decide_eq_true_eq]
    exact hlow
  unfold daa
  simp only [h, hcarry, hhalf, if_true]
  rfl

/-- An operation on the accumulator with DAA after it. -/
def adjusted (op : AluOp) (f : Flags) (a v : Byte) : Byte × Flags :=
  (f.alu op a v).2.daa (f.alu op a v).1

/-- ADC and DAA on the Z80. -/
theorem adc_adjusted (f : Flags) (a v : Byte) :
    ((f.adjusted .adc a v).1, (f.adjusted .adc a v).2.carry) =
      adjustUp (addBytes a v f.carry) (Retrocore.halfCarry a v f.carry)
        (carriesOutOf 7 a.toNat v.toNat f.carry) :=
  daa_of_add (f := (add8 a v f.carry).2) rfl (addBytes a v f.carry)

/-- The digits of a difference are looked at too, but only those that have
borrowed are too big. -/
theorem sbc_adjusted (f : Flags) (a v : Byte) (ha : IsPacked a) :
    ((f.adjusted .sbc a v).1, (f.adjusted .sbc a v).2.carry) =
      adjustDown (subBytes a v f.carry) (halfBorrow a v f.carry)
        (borrowsInto 7 a.toNat v.toNat f.carry) :=
  daa_of_sub (f := (sub8 a v f.carry).2) rfl (subBytes_over ha f.carry)
    (subBytes_low_over ha f.carry)

end Z80.Flags

namespace Lr35902.Flags

/-- After an addition the LR35902 adjusts upwards. -/
theorem daa_of_add {f : Flags} (h : f.subtract = false) (v : Byte) :
    ((f.daa v).1, (f.daa v).2.carry) = adjustUp v f.halfCarry f.carry := by
  unfold daa
  simp only [h, Bool.false_eq_true, if_false, add_sixes]
  rfl

/-- After a subtraction it adjusts downwards and looks at nothing but the flags. -/
theorem daa_of_sub {f : Flags} (h : f.subtract = true) (v : Byte) :
    ((f.daa v).1, (f.daa v).2.carry) = adjustDown v f.halfCarry f.carry := by
  unfold daa
  simp only [h, if_true, sub_sixes]
  rfl

/-- An operation on the accumulator with DAA after it. -/
def adjusted (op : AluOp) (f : Flags) (a v : Byte) : Byte × Flags :=
  (f.alu op a v).2.daa (f.alu op a v).1

/-- ADC and DAA on the LR35902. -/
theorem adc_adjusted (f : Flags) (a v : Byte) :
    ((f.adjusted .adc a v).1, (f.adjusted .adc a v).2.carry) =
      adjustUp (addBytes a v f.carry) (Retrocore.halfCarry a v f.carry)
        (carriesOutOf 7 a.toNat v.toNat f.carry) :=
  daa_of_add (f := (add8 a v f.carry).2) rfl (addBytes a v f.carry)

/-- SBC and DAA on the LR35902. -/
theorem sbc_adjusted (f : Flags) (a v : Byte) :
    ((f.adjusted .sbc a v).1, (f.adjusted .sbc a v).2.carry) =
      adjustDown (subBytes a v f.carry) (halfBorrow a v f.carry)
        (borrowsInto 7 a.toNat v.toNat f.carry) :=
  daa_of_sub (f := (sub8 a v f.carry).2) rfl (subBytes a v f.carry)

end Lr35902.Flags

/-- Packed decimal arithmetic of any length is right on the 8-bit processors.
With a clear carry to start from, ADC and DAA on each byte in turn add two
numbers; on the two that can adjust a difference, SBC and DAA subtract them. -/
theorem decimals_right :
    (AddsDecimals (I8080.Flags.adjusted .adc) (·.carry) ∧
      AddsDecimals (Z80.Flags.adjusted .adc) (·.carry) ∧
      AddsDecimals (Lr35902.Flags.adjusted .adc) (·.carry)) ∧
    SubtractsDecimals (Z80.Flags.adjusted .sbc) (·.carry) ∧
    SubtractsDecimals (Lr35902.Flags.adjusted .sbc) (·.carry) := by
  refine ⟨⟨?i8080, ?z80, ?lr35902⟩, ?z80Difference, ?lr35902Difference⟩
  case i8080 => exact (CombinesPairs.of_up I8080.Flags.adc_adjusted).addsDecimals
  case z80 => exact (CombinesPairs.of_up Z80.Flags.adc_adjusted).addsDecimals
  case lr35902 => exact (CombinesPairs.of_up Lr35902.Flags.adc_adjusted).addsDecimals
  case z80Difference =>
    exact (CombinesPairs.of_down Z80.Flags.sbc_adjusted).subtractsDecimals
  case lr35902Difference =>
    exact (CombinesPairs.of_down fun f a v _ => f.sbc_adjusted a v).subtractsDecimals

/-- 1984 and 8016 are one too many for four digits; 1984 less 2001 borrows, and
leaves 17 less than the 10000 that there are. -/
theorem decimals_right_carrying :
    (Packs 2 1984 [0x84, 0x19] ∧ Packs 2 8016 [0x16, 0x80] ∧ Packs 2 2001 [0x01, 0x20]) ∧
    (let sum := chain (I8080.Flags.adjusted .adc) {} [0x84, 0x19] [0x16, 0x80]
     Packs 2 0 sum.1 ∧ sum.2.carry = true) ∧
    (let difference := chain (Z80.Flags.adjusted .sbc) {} [0x84, 0x19] [0x01, 0x20]
     Packs 2 9983 difference.1 ∧ difference.2.carry = true) := by
  obtain ⟨⟨hadd, _, _⟩, hsubtract, _⟩ := decimals_right
  have h1984 : Packs 2 1984 [0x84, 0x19] := .two (by decide) (by decide) rfl
  have h8016 : Packs 2 8016 [0x16, 0x80] := .two (by decide) (by decide) rfl
  have h2001 : Packs 2 2001 [0x01, 0x20] := .two (by decide) (by decide) rfl
  obtain ⟨hsum, hcarry⟩ := hadd {} 2 1984 8016 _ _ rfl h1984 h8016
  obtain ⟨hdifference, hborrow⟩ := hsubtract {} 2 1984 2001 _ _ rfl h1984 h2001
  exact ⟨⟨h1984, h8016, h2001⟩, ⟨hsum, hcarry.mpr (by decide)⟩,
    hdifference, hborrow.mpr (by decide)⟩

end Retrocore
