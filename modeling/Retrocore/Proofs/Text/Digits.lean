import Mathlib.Algebra.Group.Nat.Defs
import Retrocore.Text.Hex

/-!
# Reading digits back

Digits with leading zeros end in the last digit of their number, and before it
stand the digits of the rest (`digits_succ`). So a number that has room in a
field can be told from what the field shows (`digits_inj`), and an address from
how it is written (`hex16_inj`). A decimal number is what its digits are worth,
whatever the width of the field (`ofDigitChars_digits`).
-/

namespace Retrocore.Text

/-- Digits are written with zeros before them up to the width. -/
theorem digits_eq (b w n : Nat) :
    digits b w n = List.replicate (w - (Nat.toDigits b n).length) '0' ++ Nat.toDigits b n := rfl

/-- Without a width these are the digits that any number is printed with. -/
theorem toString_eq_digits (n : Nat) : toString n = String.ofList (digits 10 0 n) := by
  rw [Nat.toString_eq_ofList_toDigits, digits_eq, Nat.zero_sub]
  rfl

/-- Digits up to ten are read back, whatever zeros stand before them. -/
theorem ofDigitChars_digits {b : Nat} (hb : 1 < b) (hb' : b ≤ 10) (w n : Nat) :
    Nat.ofDigitChars b (digits b w n) 0 = n := by
  rw [digits_eq, Nat.ofDigitChars_append, Nat.ofDigitChars_replicate_zero, Nat.mul_zero,
    Nat.ofDigitChars_toDigits hb hb']

theorem digits_of_lt {b n : Nat} (h : n < b) (w : Nat) :
    digits b (w + 1) n = List.replicate w '0' ++ [n.digitChar] := by
  rw [digits_eq, Nat.toDigits_of_lt_base h]
  rfl

/-- The last digit stands behind the digits of the rest. -/
theorem digits_succ {b : Nat} (hb : 1 < b) (w n : Nat) :
    digits b (w + 2) n = digits b (w + 1) (n / b) ++ [(n % b).digitChar] := by
  by_cases hlt : n < b
  · -- A single digit; the last of the zeros before it is the rest.
    have hpos : 0 < b := Nat.lt_trans Nat.one_pos hb
    rw [Nat.div_eq_of_lt hlt, Nat.mod_eq_of_lt hlt, digits_of_lt hlt, digits_of_lt hpos,
      List.replicate_succ']
    rfl
  · rw [digits_eq, digits_eq, Nat.toDigits_of_base_le hb (Nat.le_of_not_lt hlt),
      List.length_append, List.length_singleton, Nat.succ_sub_succ, List.append_assoc]

/-- Digits are told apart by their characters. -/
theorem digitChar_inj {a b : Nat} (ha : a < 16) (hb : b < 16) (h : a.digitChar = b.digitChar) :
    a = b := by
  have hall : ∀ a ∈ List.range 16, ∀ b ∈ List.range 16, a.digitChar = b.digitChar → a = b := by
    decide
  exact hall a (List.mem_range.mpr ha) b (List.mem_range.mpr hb) h

/-- Numbers that have room in a hexadecimal field are shown differently. -/
theorem digits_inj {w m n : Nat} (hm : m < 16 ^ (w + 1)) (hn : n < 16 ^ (w + 1))
    (h : digits 16 (w + 1) m = digits 16 (w + 1) n) : m = n := by
  induction w generalizing m n with
  | zero =>
    rw [Nat.pow_one] at hm hn
    rw [digits_of_lt hm, digits_of_lt hn] at h
    exact digitChar_inj hm hn (List.cons.inj h).1
  | succ w ih =>
    rw [digits_succ (by decide), digits_succ (by decide)] at h
    obtain ⟨hrest, hlast⟩ := List.append_inj' h rfl
    have hlast : m % 16 = n % 16 :=
      digitChar_inj (Nat.mod_lt _ (by decide)) (Nat.mod_lt _ (by decide)) (List.cons.inj hlast).1
    have hrest : m / 16 = n / 16 := ih (by omega) (by omega) hrest
    omega

theorem hex16_inj {v w : UInt16} (h : hex16 v = hex16 w) : v = w := by
  have hdigits : digits 16 4 v.toNat = digits 16 4 w.toNat := by
    unfold hex16 hex bareHex at h
    exact String.ofList_inj.mp ((String.append_right_inj _).mp h)
  exact UInt16.toNat_inj.mp (digits_inj v.toNat_lt w.toNat_lt hdigits)

end Retrocore.Text
