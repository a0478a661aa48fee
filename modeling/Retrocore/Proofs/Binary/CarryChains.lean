import Mathlib.Data.Nat.Digits.Defs
import Mathlib.Tactic.LinearCombination
import Retrocore.I8080.Flags
import Retrocore.Lr35902.Flags
import Retrocore.Z80.Flags

/-!
# Numbers that are longer than a register

A processor adds and subtracts long numbers digit by digit, the least significant
digit first; a digit is a byte or a word. Each operation takes the carry that the
one before has left in the flags (`ripple`).

What comes out is exact if one digit is: what the digit holds and what its carry
stands for are together the whole result (`CarriesExactly`). The processors do not
read the carry off the result, which has wrapped by then, but compute it apart
from it, so that the two have to be shown to fit (`sum_add_carry`,
`difference_add_borrow`). From there on it is an induction on the digits, the
same for sums and differences, which part in a sign (`numberOf_ripple`).
-/

namespace Retrocore

/-! ## One digit -/

/-- The low digit of a sum and the carry out of it are the whole sum. The operands
fill the digit at most, and then there may be a carry to come in on top. -/
theorem sum_add_carry {bit a b : Nat} (ha : a < 2 ^ (bit + 1)) (hb : b < 2 ^ (bit + 1))
    (c : Bool) :
    (a + b + c.toNat) % 2 ^ (bit + 1) + 2 ^ (bit + 1) * (carriesOutOf bit a b c).toNat =
      a + b + c.toNat := by
  have hc := c.toNat_le
  have hcarry : carriesOutOf bit a b c = decide (2 ^ (bit + 1) ≤ a + b + c.toNat) := by
    show decide (2 ^ (bit + 1) ≤ a % 2 ^ (bit + 1) + b % 2 ^ (bit + 1) + c.toNat) = _
    rw [Nat.mod_eq_of_lt ha, Nat.mod_eq_of_lt hb]
  generalize 2 ^ (bit + 1) = width at *
  rw [hcarry]
  by_cases hout : width ≤ a + b + c.toNat
  · have hmod : (a + b + c.toNat) % width = a + b + c.toNat - width := by
      rw [Nat.mod_eq_sub_mod hout, Nat.mod_eq_of_lt (by omega)]
    rw [hmod, decide_eq_true hout, Bool.toNat_true]
    omega
  · rw [Nat.mod_eq_of_lt (by omega), decide_eq_false hout, Bool.toNat_false]
    omega

/-- The same of a difference, from which the borrow is missing. -/
theorem difference_add_borrow {bit a b : Nat} (ha : a < 2 ^ (bit + 1)) (hb : b < 2 ^ (bit + 1))
    (c : Bool) :
    (a + 2 * 2 ^ (bit + 1) - b - c.toNat) % 2 ^ (bit + 1) + b + c.toNat =
      a + 2 ^ (bit + 1) * (borrowsInto bit a b c).toNat := by
  have hc := c.toNat_le
  have hborrow : borrowsInto bit a b c = decide (a < b + c.toNat) := by
    show decide (a % 2 ^ (bit + 1) < b % 2 ^ (bit + 1) + c.toNat) = _
    rw [Nat.mod_eq_of_lt ha, Nat.mod_eq_of_lt hb]
  generalize 2 ^ (bit + 1) = width at *
  rw [hborrow]
  by_cases hout : a < b + c.toNat
  · have hmod : (a + 2 * width - b - c.toNat) % width = a + width - b - c.toNat := by
      rw [Nat.mod_eq_sub_mod (by omega), Nat.mod_eq_of_lt (by omega)]
      omega
    rw [hmod, decide_eq_true hout, Bool.toNat_true]
    omega
  · have hmod : (a + 2 * width - b - c.toNat) % width = a - b - c.toNat := by
      have hsplit : a + 2 * width - b - c.toNat = a - b - c.toNat + 2 * width := by omega
      rw [hsplit, Nat.add_mul_mod_self_right, Nat.mod_eq_of_lt (by omega)]
    rw [hmod, decide_eq_false hout, Bool.toNat_false]
    omega

/-- A carry as a word counts for one. -/
theorem toNat_bitWord (b : Bool) : (bitWord b).toNat = b.toNat := by
  cases b <;> rfl

/-- Together with its carry, a sum of bytes is the sum of the numbers. -/
theorem addBytes_exact (a b : Byte) (c : Bool) :
    (addBytes a b c).toNat + 256 * (carriesOutOf 7 a.toNat b.toNat c).toNat =
      a.toNat + b.toNat + c.toNat := by
  rw [toNat_addBytes]
  exact sum_add_carry a.toNat_lt b.toNat_lt c

/-- Together with its borrow, so is a difference. -/
theorem subBytes_exact (a b : Byte) (c : Bool) :
    (subBytes a b c).toNat + b.toNat + c.toNat =
      a.toNat + 256 * (borrowsInto 7 a.toNat b.toNat c).toNat := by
  rw [toNat_subBytes]
  exact difference_add_borrow a.toNat_lt b.toNat_lt c

/-- A sum of words is exact with its carry. -/
theorem addWords_exact (a b : Word) (c : Bool) :
    (a + b + bitWord c).toNat + 65536 * (carriesOutOf 15 a.toNat b.toNat c).toNat =
      a.toNat + b.toNat + c.toNat := by
  have hsum : (a + b + bitWord c).toNat = (a.toNat + b.toNat + c.toNat) % 65536 := by
    simp only [UInt16.toNat_add, toNat_bitWord]
    omega
  rw [hsum]
  exact sum_add_carry a.toNat_lt b.toNat_lt c

/-- A difference of words is exact with its borrow. -/
theorem subWords_exact (a b : Word) (c : Bool) :
    (a - b - bitWord c).toNat + b.toNat + c.toNat =
      a.toNat + 65536 * (borrowsInto 15 a.toNat b.toNat c).toNat := by
  have hb := b.toNat_lt
  have hc := c.toNat_le
  have hdifference : (a - b - bitWord c).toNat =
      (a.toNat + 2 * 65536 - b.toNat - c.toNat) % 65536 := by
    simp only [UInt16.toNat_sub, toNat_bitWord]
    omega
  rw [hdifference]
  exact difference_add_borrow a.toNat_lt b.toNat_lt c

/-! ## Digit by digit -/

section Ripple

variable {δ φ : Type} {base : Nat} {value : δ → Nat} {op : δ → δ → Bool → δ × φ}
  {carry : φ → Bool} {sign : Int}

/-- The number that digits stand for, the least significant first. -/
def numberOf (base : Nat) (value : δ → Nat) (ds : List δ) : Nat :=
  Nat.ofDigits base (ds.map value)

/-- The digits come lowest first. -/
theorem numberOf_cons (d : δ) (ds : List δ) :
    numberOf base value (d :: ds) = value d + base * numberOf base value ds :=
  Nat.ofDigits_cons

/-- An operation on pairs of digits, from the lowest to the highest, each with the
carry that the one before has left. The first finds the carry that is given, and
the one that the last leaves comes out beside the digits. -/
def ripple (op : δ → δ → Bool → δ × φ) (carry : φ → Bool) :
    List δ → List δ → Bool → List δ × Bool
  | x :: xs, y :: ys, c =>
    let (z, flags) := op x y c
    let (zs, out) := ripple op carry xs ys (carry flags)
    (z :: zs, out)
  | _, _, c => ([], c)

/-- The operation makes `x + sign * y` of two digits and the carry, which counts
with `y`, and it leaves a carry for what a digit cannot hold. -/
def CarriesExactly (sign : Int) (base : Nat) (value : δ → Nat) (op : δ → δ → Bool → δ × φ)
    (carry : φ → Bool) : Prop :=
  ∀ x y c, (value (op x y c).1 : Int) + sign * (base * (carry (op x y c).2).toNat) =
    value x + sign * (value y + c.toNat)

/-- There are as many digits in the result. -/
theorem length_ripple {xs ys : List δ} (h : xs.length = ys.length) (c : Bool) :
    (ripple op carry xs ys c).1.length = xs.length := by
  induction xs generalizing ys c with
  | nil => rfl
  | cons x xs ih =>
    obtain ⟨y, ys, rfl⟩ := List.exists_cons_of_length_eq_add_one h.symm
    exact congrArg Nat.succ (ih (Nat.succ.inj h) _)

/-- Nothing is lost on the way: what the carry of a digit stands for is what the
next digit finds. -/
theorem CarriesExactly.numberOf_ripple (h : CarriesExactly sign base value op carry)
    {xs ys : List δ} (hlength : xs.length = ys.length) (c : Bool) :
    (numberOf base value (ripple op carry xs ys c).1 : Int) +
        sign * (base ^ xs.length * (ripple op carry xs ys c).2.toNat) =
      numberOf base value xs + sign * (numberOf base value ys + c.toNat) := by
  induction xs generalizing ys c with
  | nil =>
    cases List.eq_nil_of_length_eq_zero hlength.symm
    simp [ripple, numberOf]
  | cons x xs ih =>
    obtain ⟨y, ys, rfl⟩ := List.exists_cons_of_length_eq_add_one hlength.symm
    have hdigit := h x y c
    have hrest := ih (Nat.succ.inj hlength) (carry (op x y c).2)
    simp only [ripple, numberOf_cons, List.length_cons]
    push_cast
    linear_combination hdigit + base * hrest

/-- The operation adds numbers of any count of digits: what comes out is the sum,
with the carry as one digit more. -/
def AddsNumbers (base : Nat) (value : δ → Nat) (op : δ → δ → Bool → δ × φ)
    (carry : φ → Bool) : Prop :=
  ∀ n xs ys c, xs.length = n → ys.length = n →
    (ripple op carry xs ys c).1.length = n ∧
    numberOf base value (ripple op carry xs ys c).1 +
        base ^ n * (ripple op carry xs ys c).2.toNat =
      numberOf base value xs + numberOf base value ys + c.toNat

/-- The operation subtracts numbers of any count of digits: what comes out, less
the borrow as one digit more, is the difference. -/
def SubtractsNumbers (base : Nat) (value : δ → Nat) (op : δ → δ → Bool → δ × φ)
    (carry : φ → Bool) : Prop :=
  ∀ n xs ys c, xs.length = n → ys.length = n →
    (ripple op carry xs ys c).1.length = n ∧
    (numberOf base value (ripple op carry xs ys c).1 : Int) -
        base ^ n * (ripple op carry xs ys c).2.toNat =
      numberOf base value xs - numberOf base value ys - c.toNat

/-- Digits that are added exactly add up to the sum of the numbers. -/
theorem CarriesExactly.addsNumbers (h : CarriesExactly 1 base value op carry) :
    AddsNumbers base value op carry := by
  rintro n xs ys c rfl hys
  refine ⟨length_ripple hys.symm c, ?_⟩
  have hvalue := h.numberOf_ripple hys.symm c
  rw [one_mul, one_mul, ← add_assoc] at hvalue
  exact_mod_cast hvalue

/-- Digits that are subtracted exactly come to the difference of the numbers. -/
theorem CarriesExactly.subtractsNumbers (h : CarriesExactly (-1) base value op carry) :
    SubtractsNumbers base value op carry := by
  rintro n xs ys c rfl hys
  refine ⟨length_ripple hys.symm c, ?_⟩
  linear_combination h.numberOf_ripple hys.symm c

/-- An adder of digits whose sums are exact. -/
theorem CarriesExactly.of_sum
    (h : ∀ x y c, value (op x y c).1 + base * (carry (op x y c).2).toNat =
      value x + value y + c.toNat) :
    CarriesExactly 1 base value op carry := by
  intro x y c
  have hdigit : (_ : Int) = _ := congrArg Nat.cast (h x y c)
  push_cast at hdigit
  linear_combination hdigit

/-- A law of differences without subtraction, as the helpers of the cores satisfy it. -/
theorem CarriesExactly.of_difference
    (h : ∀ x y c, value (op x y c).1 + value y + c.toNat =
      value x + base * (carry (op x y c).2).toNat) :
    CarriesExactly (-1) base value op carry := by
  intro x y c
  have hdigit : (_ : Int) = _ := congrArg Nat.cast (h x y c)
  push_cast at hdigit
  linear_combination hdigit

end Ripple

/-! ## The processors -/

/-- **Sums and differences of any length are exact.** Feeding digits from low to
high through any of the adders and subtractors, each with the carry flag that the
one before has left, loses nothing: in bytes on all three processors with such
flags, and on the Z80 in words too. -/
theorem long_arithmetic_exact :
    (AddsNumbers 256 UInt8.toNat I8080.Flags.add (·.carry) ∧
      SubtractsNumbers 256 UInt8.toNat I8080.Flags.sub (·.carry)) ∧
    (AddsNumbers 256 UInt8.toNat Z80.Flags.add8 (·.carry) ∧
      SubtractsNumbers 256 UInt8.toNat Z80.Flags.sub8 (·.carry)) ∧
    (AddsNumbers 256 UInt8.toNat Lr35902.Flags.add8 (·.carry) ∧
      SubtractsNumbers 256 UInt8.toNat Lr35902.Flags.sub8 (·.carry)) ∧
    AddsNumbers 65536 UInt16.toNat Z80.Flags.adc16 (·.carry) ∧
      SubtractsNumbers 65536 UInt16.toNat Z80.Flags.sbc16 (·.carry) := by
  refine ⟨⟨?_, ?_⟩, ⟨?_, ?_⟩, ⟨?_, ?_⟩, ?_, ?_⟩
  -- whatever else the flags tell, the carry is that of the digits alone
  · exact (CarriesExactly.of_sum addBytes_exact).addsNumbers
  · exact (CarriesExactly.of_difference subBytes_exact).subtractsNumbers
  · exact (CarriesExactly.of_sum addBytes_exact).addsNumbers
  · exact (CarriesExactly.of_difference subBytes_exact).subtractsNumbers
  · exact (CarriesExactly.of_sum addBytes_exact).addsNumbers
  · exact (CarriesExactly.of_difference subBytes_exact).subtractsNumbers
  · exact (CarriesExactly.of_sum addWords_exact).addsNumbers
  · exact (CarriesExactly.of_difference subWords_exact).subtractsNumbers

/-- The largest numbers with a carry on top, and nothing less the largest number
and a borrow. -/
theorem long_arithmetic_exact_at_maximum :
    (let sum := ripple I8080.Flags.add (·.carry) [0xff, 0xff] [0xff, 0xff] true
     numberOf 256 UInt8.toNat sum.1 + 256 ^ 2 * sum.2.toNat = 65535 + 65535 + 1) ∧
    (let difference := ripple Z80.Flags.sbc16 (·.carry) [0, 0] [0xffff, 0xffff] true
     (numberOf 65536 UInt16.toNat difference.1 : Int) - 65536 ^ 2 * difference.2.toNat =
       0 - 4294967295 - 1) := by
  obtain ⟨⟨hadd, _⟩, _, _, _, hsubtract⟩ := long_arithmetic_exact
  exact ⟨(hadd 2 [0xff, 0xff] [0xff, 0xff] true rfl rfl).2,
    (hsubtract 2 [0, 0] [0xffff, 0xffff] true rfl rfl).2⟩

end Retrocore
