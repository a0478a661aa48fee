import Mathlib.Data.List.Forall2
import Mathlib.Data.Nat.Digits.Defs
import Retrocore.Proofs.Text.Digits
import Retrocore.Text.Blank
import Retrocore.Text.Numeral

/-!
# Reading numerals

A numeral is at most one plus sign and then digits, of which there is at least one; its number
is what the digits stand for in the radix (`IsNumeral`). The reader goes from left to right and
gives up as soon as the number is too large. Since a number never shrinks while digits are
added, it accepts the numerals of the numbers up to its limit and nothing else
(`readNumeral_eq_ok_iff`).

Digits that were written in one base may be read in another (`standFor_digits`). If they are read
in hexadecimal, the number comes back if it was written so (`reread_hex`), but a greater one if
it was written in decimal with more than one digit (`reread_decimal`).
-/

namespace Retrocore.Text

/-! ## Digits -/

/-- The character is the digit of that value, a letter in either case. -/
def IsDigit (radix : Nat) (c : Char) (v : Nat) : Prop :=
  v < radix ∧ (c = v.digitChar ∨ c = v.digitChar.toUpper)

/-- The characters are digits of the radix, and stand for the number. -/
def StandFor (radix : Nat) (cs : List Char) (n : Nat) : Prop :=
  ∃ vs, List.Forall₂ (IsDigit radix) cs vs ∧ n = Nat.ofDigits radix vs.reverse

theorem digitValue?_of_isDigit {radix v : Nat} (hradix : radix ≤ 16) {c : Char}
    (h : IsDigit radix c v) : digitValue? radix c = some v := by
  have hall : ∀ v ∈ List.range 16, digitValue? 16 v.digitChar = some v ∧
      digitValue? 16 v.digitChar.toUpper = some v := by decide
  obtain ⟨hlt, hc⟩ := h
  obtain ⟨hlower, hupper⟩ := hall v (List.mem_range.mpr (by omega))
  have hvalue : digitValue? 16 c = some v := by
    obtain rfl | rfl := hc
    · exact hlower
    · exact hupper
  obtain ⟨hvalue, -⟩ := Option.filter_eq_some_iff.mp hvalue
  exact Option.filter_eq_some_iff.mpr ⟨hvalue, decide_eq_true hlt⟩

theorem isDigit_of_digitValue? {radix v : Nat} (hradix : radix ≤ 16) {c : Char}
    (h : digitValue? radix c = some v) : IsDigit radix c v := by
  have hall : ∀ v ∈ List.range 16, (v ≤ 9 → Char.ofNat (v + 48) = v.digitChar) ∧
      (10 ≤ v → Char.ofNat (v + 87) = v.digitChar ∧ Char.ofNat (v + 55) = v.digitChar.toUpper) := by
    decide
  obtain ⟨hvalue, hlt⟩ := Option.filter_eq_some_iff.mp h
  have hlt : v < radix := of_decide_eq_true hlt
  obtain ⟨hdecimal, hletter⟩ := hall v (List.mem_range.mpr (by omega))
  refine ⟨hlt, ?_⟩
  rw [← Char.ofNat_toNat c]
  split at hvalue
  next hrange =>
    obtain rfl := Option.some.inj hvalue
    left
    rw [← hdecimal (by omega), Nat.sub_add_cancel hrange.1]
  next =>
    split at hvalue
    next hrange =>
      obtain rfl := Option.some.inj hvalue
      left
      rw [← (hletter (by omega)).1, Nat.sub_add_cancel (by omega)]
    next =>
      split at hvalue
      next hrange =>
        obtain rfl := Option.some.inj hvalue
        right
        rw [← (hletter (by omega)).2, Nat.sub_add_cancel (by omega)]
      next => cases hvalue

/-- The characters that are read as digits are those that stand for one. -/
theorem digitValue?_eq_some_iff {radix v : Nat} (hradix : radix ≤ 16) {c : Char} :
    digitValue? radix c = some v ↔ IsDigit radix c v :=
  ⟨isDigit_of_digitValue? hradix, digitValue?_of_isDigit hradix⟩

/-- No blank is a digit. -/
theorem digitValue?_of_isBlank {c : Char} (h : isBlank c = true) : digitValue? 16 c = none := by
  have hall : ∀ v ∈ List.range 16, isBlank v.digitChar = false ∧
      isBlank v.digitChar.toUpper = false := by decide
  cases hc : digitValue? 16 c with
  | none => rfl
  | some v =>
    obtain ⟨hlt, rfl | rfl⟩ := isDigit_of_digitValue? (Nat.le_refl 16) hc
    · rw [(hall v (List.mem_range.mpr hlt)).1] at h
      cases h
    · rw [(hall v (List.mem_range.mpr hlt)).2] at h
      cases h

/-- What is no hexadecimal digit is none in a smaller radix. -/
theorem not_isDigit {radix : Nat} (hradix : radix ≤ 16) {c : Char} (hc : digitValue? 16 c = none)
    (v : Nat) : ¬ IsDigit radix c v := by
  rintro ⟨hlt, hchar⟩
  rw [digitValue?_of_isDigit (Nat.le_refl 16) ⟨Nat.lt_of_lt_of_le hlt hradix, hchar⟩] at hc
  cases hc

/-- What has no value in hexadecimal does not stand among digits. -/
theorem StandFor.notMem {radix n : Nat} (hradix : radix ≤ 16) {cs : List Char}
    (h : StandFor radix cs n) {c : Char} (hc : digitValue? 16 c = none) : c ∉ cs := by
  obtain ⟨vs, hdigits, -⟩ := h
  induction hdigits with
  | nil => exact List.not_mem_nil
  | cons hdigit _ ih =>
    rw [List.mem_cons]
    rintro (rfl | hrest)
    · exact not_isDigit hradix hc _ hdigit
    · exact ih hrest

/-- The characters are digits, and behind others that stand for `acc` they make up the number. -/
def StandBehind (radix acc : Nat) (cs : List Char) (n : Nat) : Prop :=
  ∃ vs, List.Forall₂ (IsDigit radix) cs vs ∧ n = Nat.ofDigits radix (vs.reverse ++ [acc])

/-- Leading zeros make no difference. -/
theorem standBehind_zero {radix : Nat} {cs : List Char} {n : Nat} :
    StandBehind radix 0 cs n ↔ StandFor radix cs n := by
  simp only [StandBehind, StandFor, Nat.ofDigits_append_zero]

theorem standBehind_nil {radix acc n : Nat} : StandBehind radix acc [] n ↔ n = acc := by
  constructor
  · rintro ⟨vs, hdigits, rfl⟩
    cases hdigits
    exact Nat.ofDigits_singleton
  · rintro rfl
    exact ⟨[], .nil, Nat.ofDigits_singleton.symm⟩

/-- The first digit goes to those before it. -/
theorem standBehind_cons {radix acc n : Nat} {c : Char} {cs : List Char} :
    StandBehind radix acc (c :: cs) n ↔
      ∃ d, IsDigit radix c d ∧ StandBehind radix (acc * radix + d) cs n := by
  have hstep (d : Nat) (vs : List Nat) : Nat.ofDigits radix ((d :: vs).reverse ++ [acc]) =
      Nat.ofDigits radix (vs.reverse ++ [acc * radix + d]) := by
    have hpair : Nat.ofDigits radix [d, acc] = Nat.ofDigits radix [acc * radix + d] := by
      rw [Nat.ofDigits_cons, Nat.ofDigits_singleton, Nat.ofDigits_singleton, Nat.mul_comm]
      exact Nat.add_comm _ _
    rw [List.reverse_cons, List.append_assoc, List.singleton_append, Nat.ofDigits_append, hpair,
      ← Nat.ofDigits_append]
  constructor
  · rintro ⟨vs, hdigits, rfl⟩
    cases hdigits with
    | cons hd hrest => exact ⟨_, hd, _, hrest, hstep _ _⟩
  · rintro ⟨d, hd, vs, hrest, rfl⟩
    exact ⟨d :: vs, .cons hd hrest, (hstep d vs).symm⟩

/-- A number does not shrink when digits are added. -/
theorem StandBehind.le {radix acc n : Nat} {cs : List Char} (h : StandBehind radix acc cs n) :
    acc ≤ n := by
  induction cs generalizing acc with
  | nil => exact Nat.le_of_eq (standBehind_nil.mp h).symm
  | cons c cs ih =>
    obtain ⟨d, hd, hrest⟩ := standBehind_cons.mp h
    have hradix : 0 < radix := Nat.zero_lt_of_lt hd.1
    calc acc ≤ acc * radix := Nat.le_mul_of_pos_right acc hradix
      _ ≤ acc * radix + d := Nat.le_add_right _ _
      _ ≤ n := ih hrest

/-! ## Numerals -/

/-- Digits are read if they are digits and what they stand for stays within the
limit. -/
theorem readDigits_eq_ok_iff {radix limit acc n : Nat} (hradix : radix ≤ 16) {cs : List Char}
    (hacc : acc ≤ limit) :
    readDigits radix limit acc cs = .ok n ↔ n ≤ limit ∧ StandBehind radix acc cs n := by
  induction cs generalizing acc with
  | nil =>
    rw [readDigits, standBehind_nil, Except.ok.injEq]
    constructor
    · rintro rfl
      exact ⟨hacc, rfl⟩
    · rintro ⟨-, rfl⟩
      rfl
  | cons c cs ih =>
    rw [readDigits, standBehind_cons]
    cases hc : digitValue? radix c with
    | none =>
      have hnone : ¬ ∃ d, IsDigit radix c d ∧ StandBehind radix (acc * radix + d) cs n := by
        rintro ⟨d, hd, -⟩
        rw [digitValue?_of_isDigit hradix hd] at hc
        cases hc
      simp [hnone]
    | some d =>
      have hdigit : ∀ e, IsDigit radix c e ↔ e = d := by
        intro e
        rw [← digitValue?_eq_some_iff hradix, hc, Option.some.injEq, eq_comm]
      simp only [hdigit, exists_eq_left]
      split
      next hfits => exact ih hfits
      next hlarge =>
        refine iff_of_false (fun h => nomatch h) ?_
        rintro ⟨hn, hrest⟩
        exact hlarge (Nat.le_trans hrest.le hn)

/-- At most one plus sign, and then digits that stand for the number. -/
def IsNumeral (radix : Nat) (cs : List Char) (n : Nat) : Prop :=
  ∃ sign ds, cs = sign ++ ds ∧ (sign = [] ∨ sign = ['+']) ∧ ds ≠ [] ∧ StandFor radix ds n

/-- There is no number without digits. -/
theorem isNumeral_nil {radix n : Nat} : ¬ IsNumeral radix [] n := by
  rintro ⟨sign, ds, hsplit, -, hds, -⟩
  exact hds (List.append_eq_nil_iff.mp hsplit.symm).2

/-- One sign may stand before the digits. -/
theorem isNumeral_plus {radix n : Nat} (hradix : radix ≤ 16) {ds : List Char} :
    IsNumeral radix ('+' :: ds) n ↔ ds ≠ [] ∧ StandFor radix ds n := by
  constructor
  · rintro ⟨sign, ds', hsplit, rfl | rfl, hds, hvalue⟩
    · obtain ⟨vs, hdigits, -⟩ := hvalue
      rw [List.nil_append] at hsplit
      rw [← hsplit] at hdigits
      cases hdigits with
      | cons hplus _ => exact absurd hplus (not_isDigit hradix rfl _)
    · obtain rfl := (List.cons.inj hsplit).2
      exact ⟨hds, hvalue⟩
  · rintro ⟨hds, hvalue⟩
    exact ⟨['+'], ds, rfl, .inr rfl, hds, hvalue⟩

theorem isNumeral_of_ne_plus {radix n : Nat} {c : Char} (hc : c ≠ '+') {cs : List Char} :
    IsNumeral radix (c :: cs) n ↔ StandFor radix (c :: cs) n := by
  constructor
  · rintro ⟨sign, ds, hsplit, rfl | rfl, -, hvalue⟩
    · rwa [hsplit]
    · exact absurd (List.cons.inj hsplit).1 hc
  · intro hvalue
    exact ⟨[], c :: cs, rfl, .inl rfl, List.cons_ne_nil _ _, hvalue⟩

/-- A numeral has no character in it but digits and the sign. -/
theorem IsNumeral.notMem {radix n : Nat} (hradix : radix ≤ 16) {cs : List Char}
    (h : IsNumeral radix cs n) {c : Char} (hc : digitValue? 16 c = none) (hplus : c ≠ '+') :
    c ∉ cs := by
  obtain ⟨sign, ds, rfl, rfl | rfl, -, hvalue⟩ := h
  · exact hvalue.notMem hradix hc
  · exact List.not_mem_cons_of_ne_of_not_mem hplus (hvalue.notMem hradix hc)

theorem IsNumeral.isBlank_eq_false {radix n : Nat} (hradix : radix ≤ 16) {cs : List Char}
    (h : IsNumeral radix cs n) : ∀ c ∈ cs, isBlank c = false := by
  intro c hc
  by_contra hblank
  have hblank : isBlank c = true := Bool.eq_true_of_not_eq_false hblank
  have hplus : c ≠ '+' := by
    rintro rfl
    exact absurd hblank (by decide)
  exact h.notMem hradix (digitValue?_of_isBlank hblank) hplus hc

/-- **The numerals of the numbers up to the limit are accepted**, and nothing else is. -/
theorem readNumeral_eq_ok_iff {radix limit n : Nat} (hradix : radix ≤ 16) {cs : List Char} :
    readNumeral radix limit cs = .ok n ↔ n ≤ limit ∧ IsNumeral radix cs n := by
  have hread (ds : List Char) :
      readDigits radix limit 0 ds = .ok n ↔ n ≤ limit ∧ StandFor radix ds n := by
    rw [readDigits_eq_ok_iff hradix (Nat.zero_le limit), standBehind_zero]
  unfold readNumeral
  split
  next => simp [isNumeral_nil]
  next => simp [isNumeral_plus hradix]
  next ds hds =>
    rw [hread, isNumeral_plus hradix]
    have hne : ds ≠ [] := fun h => hds h
    simp [hne]
  next hnil _ hplus =>
    cases cs with
    | nil => exact absurd rfl hnil
    | cons c cs => rw [hread, isNumeral_of_ne_plus fun h => hplus cs (congrArg (· :: cs) h)]

/-- A numeral stands for one number. -/
theorem IsNumeral.unique {radix m n : Nat} (hradix : radix ≤ 16) {cs : List Char}
    (hm : IsNumeral radix cs m) (hn : IsNumeral radix cs n) : m = n := by
  have hread (k : Nat) (hk : k ≤ max m n) (h : IsNumeral radix cs k) :
      readNumeral radix (max m n) cs = .ok k := (readNumeral_eq_ok_iff hradix).mpr ⟨hk, h⟩
  have hsame := (hread m (Nat.le_max_left m n) hm).symm.trans (hread n (Nat.le_max_right m n) hn)
  exact Except.ok.inj hsame

/-! ## Written in one base, read in another -/

theorem ofDigits_digits_of_lt {b n : Nat} (h : n < b) (radix : Nat) :
    Nat.ofDigits radix (Nat.digits b n) = n := by
  by_cases hzero : n = 0
  · rw [hzero, Nat.digits_zero]
    rfl
  · rw [Nat.digits_of_lt b n hzero h, Nat.ofDigits_singleton]

/-- Digits written in one radix can be read in a larger one, and stand for another
number then. -/
theorem standFor_toDigits {b radix : Nat} (hb : 1 < b) (hradix : b ≤ radix) (n : Nat) :
    StandFor radix (Nat.toDigits b n) (Nat.ofDigits radix (Nat.digits b n)) := by
  induction n using Nat.strongRecOn with
  | ind n ih =>
    by_cases hlt : n < b
    · refine ⟨[n], ?_, ?_⟩
      · rw [Nat.toDigits_of_lt_base hlt]
        exact .cons ⟨Nat.lt_of_lt_of_le hlt hradix, .inl rfl⟩ .nil
      · rw [ofDigits_digits_of_lt hlt]
        exact Nat.ofDigits_singleton.symm
    · have hle : b ≤ n := Nat.le_of_not_lt hlt
      have hlast : n % b < b := Nat.mod_lt _ (by omega)
      obtain ⟨vs, hdigits, hvalue⟩ := ih (n / b) (Nat.div_lt_self (by omega) hb)
      refine ⟨vs ++ [n % b], ?_, ?_⟩
      · rw [Nat.toDigits_of_base_le hb hle]
        exact List.rel_append hdigits
          (.cons ⟨Nat.lt_of_lt_of_le hlast hradix, .inl rfl⟩ .nil)
      · rw [Nat.digits_def' hb (by omega), Nat.ofDigits_cons, hvalue, List.reverse_append]
        exact Nat.ofDigits_cons.symm

/-- A zero in front changes nothing. -/
theorem StandFor.zero_cons {radix n : Nat} (hradix : 0 < radix) {cs : List Char}
    (h : StandFor radix cs n) : StandFor radix ('0' :: cs) n := by
  obtain ⟨vs, hdigits, rfl⟩ := h
  refine ⟨0 :: vs, .cons ⟨hradix, .inl rfl⟩ hdigits, ?_⟩
  rw [List.reverse_cons, Nat.ofDigits_append_zero]

/-- Digits with leading zeros stand for their number, read in the radix. -/
theorem standFor_digits {b radix : Nat} (hb : 1 < b) (hradix : b ≤ radix) (w n : Nat) :
    StandFor radix (digits b w n) (Nat.ofDigits radix (Nat.digits b n)) := by
  have hpadded : ∀ k, StandFor radix (List.replicate k '0' ++ Nat.toDigits b n)
      (Nat.ofDigits radix (Nat.digits b n)) := by
    intro k
    induction k with
    | zero => exact standFor_toDigits hb hradix n
    | succ k ih => exact ih.zero_cons (by omega)
  exact hpadded _

/-- What is written out has nothing but digits in it. -/
theorem notMem_digits {b : Nat} (hb : 1 < b) (hb' : b ≤ 16) {c : Char}
    (hc : digitValue? 16 c = none) (w n : Nat) : c ∉ digits b w n :=
  (standFor_digits hb (Nat.le_refl b) w n).notMem hb' hc

theorem digits_ne_nil (b w n : Nat) : digits b w n ≠ [] := by
  rw [digits_eq]
  exact List.append_ne_nil_of_right_ne_nil _ Nat.toDigits_ne_nil

/-- What a number that is written in a base stands for in hexadecimal. -/
def reread (base n : Nat) : Nat := Nat.ofDigits 16 (Nat.digits base n)

/-- A single digit means the same in either radix. -/
theorem reread_of_lt {b n : Nat} (h : n < b) : reread b n = n := ofDigits_digits_of_lt h 16

/-- The last digit counts once, those before it by sixteens. -/
theorem reread_of_le {b n : Nat} (hb : 1 < b) (h : b ≤ n) :
    reread b n = reread b (n / b) * 16 + n % b := by
  rw [reread, Nat.digits_def' hb (by omega), Nat.ofDigits_cons, reread]
  ring

/-- Hexadecimal digits are read as what they are. -/
theorem reread_hex (n : Nat) : reread 16 n = n := Nat.ofDigits_digits 16 n

/-- Decimal digits that are read as hexadecimal stand for no less. -/
theorem le_reread_decimal (n : Nat) : n ≤ reread 10 n := by
  have h : Nat.ofDigits 10 (Nat.digits 10 n) ≤ reread 10 n :=
    Nat.ofDigits_monotone _ (by decide)
  rwa [Nat.ofDigits_digits] at h

/-- A decimal number of several digits is read as a greater one. -/
theorem reread_decimal (n : Nat) : reread 10 n = n ↔ n < 10 := by
  constructor
  · intro h
    by_contra hge
    have hrest := le_reread_decimal (n / 10)
    rw [reread_of_le (by decide) (Nat.le_of_not_lt hge)] at h
    omega
  · exact reread_of_lt

end Retrocore.Text
