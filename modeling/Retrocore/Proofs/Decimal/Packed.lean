import Mathlib.Tactic.LinearCombination
import Retrocore.Word

/-!
# Packed decimal numbers

A packed byte holds two decimal digits, and a packed number any count of such
bytes, the least significant first (`Packs`). Processors work on them a byte at
a time, and each operation finds the carry of the one before (`chain`).

An addition and a subtraction differ in a sign: what an operation makes of `x`
and `y` is `x + sign * y`, less what its carry stands for. `CombinesPairs` says
this of two bytes, and `CombinesPairs.value_chain` of numbers of any length.
From there on it is about sums and differences (`AddsDecimals`,
`SubtractsDecimals`).
-/

namespace Retrocore

/-! ## Numbers -/

/-- Both digits are decimal. -/
def IsPacked (v : Byte) : Prop := v.toNat / 16 ≤ 9 ∧ v.toNat % 16 ≤ 9

instance (v : Byte) : Decidable (IsPacked v) :=
  inferInstanceAs (Decidable (_ ∧ _))

/-- The number below a hundred that a packed byte stands for. -/
def pairValue (v : Byte) : Nat := 10 * (v.toNat / 16) + v.toNat % 16

/-- The number that packed bytes stand for. -/
def packedValue : List Byte → Nat
  | [] => 0
  | v :: vs => pairValue v + 100 * packedValue vs

/-- The bytes are a number in packed form. -/
structure Packs (bytes n : Nat) (vs : List Byte) : Prop where
  length : vs.length = bytes
  digits : ∀ v ∈ vs, IsPacked v
  value : packedValue vs = n

/-- Two digits stay below a hundred. -/
theorem pairValue_lt {v : Byte} (h : IsPacked v) : pairValue v < 100 := by
  obtain ⟨hhigh, hlow⟩ := h
  unfold pairValue
  omega

/-- So a number of so many bytes has a bound. -/
theorem packedValue_lt {vs : List Byte} (h : ∀ v ∈ vs, IsPacked v) :
    packedValue vs < 100 ^ vs.length := by
  induction vs with
  | nil => exact Nat.one_pos
  | cons v vs ih =>
    obtain ⟨hv, hvs⟩ := List.forall_mem_cons.mp h
    have hpair := pairValue_lt hv
    have hrest := ih hvs
    rw [List.length_cons, Nat.pow_succ, packedValue]
    omega

/-- Two bytes hold four digits. -/
theorem Packs.two {v w : Byte} {n : Nat} (hv : IsPacked v) (hw : IsPacked w)
    (hn : pairValue v + 100 * pairValue w = n) : Packs 2 n [v, w] where
  length := rfl
  digits := List.forall_mem_cons.mpr ⟨hv, List.forall_mem_singleton.mpr hw⟩
  value := hn

/-- 1984 is `84 19`, low byte first. -/
example : Packs 2 1984 [0x84, 0x19] := .two (by decide) (by decide) rfl

/-! ## Byte by byte -/

section Chain

variable {φ : Type} {op : φ → Byte → Byte → Byte × φ} {carry : φ → Bool} {sign : Int}

/-- An operation on pairs of bytes, from the first pair to the last. Each finds
the flags that the one before has left. -/
def chain (op : φ → Byte → Byte → Byte × φ) (f : φ) : List Byte → List Byte → List Byte × φ
  | x :: xs, y :: ys =>
    let (v, f) := op f x y
    let (vs, f) := chain op f xs ys
    (v :: vs, f)
  | _, _ => ([], f)

/-- The operation makes `x + sign * y` of packed bytes and the carry that it
finds, and leaves a carry for what a packed byte cannot hold. -/
def CombinesPairs (sign : Int) (op : φ → Byte → Byte → Byte × φ) (carry : φ → Bool) : Prop :=
  ∀ f x y, IsPacked x → IsPacked y →
    IsPacked (op f x y).1 ∧
    (pairValue (op f x y).1 : Int) =
      pairValue x +
        sign * (pairValue y + (carry f).toNat - 100 * (carry (op f x y).2).toNat)

/-- There are as many bytes in the result. -/
theorem length_chain {xs ys : List Byte} (h : xs.length = ys.length) (f : φ) :
    (chain op f xs ys).1.length = xs.length := by
  induction xs generalizing ys f with
  | nil => rfl
  | cons x xs ih =>
    obtain ⟨y, ys, rfl⟩ := List.exists_cons_of_length_eq_add_one h.symm
    exact congrArg Nat.succ (ih (Nat.succ.inj h) _)

namespace CombinesPairs

/-- Every byte of the result is made of two decimal digits again. -/
theorem isPacked_chain (h : CombinesPairs sign op carry) {xs ys : List Byte}
    (hxs : ∀ v ∈ xs, IsPacked v) (hys : ∀ v ∈ ys, IsPacked v) (f : φ) :
    ∀ v ∈ (chain op f xs ys).1, IsPacked v := by
  induction xs generalizing ys f with
  | nil => exact fun v hv => absurd hv List.not_mem_nil
  | cons x xs ih =>
    cases ys with
    | nil => exact fun v hv => absurd hv List.not_mem_nil
    | cons y ys =>
      obtain ⟨hx, hxs⟩ := List.forall_mem_cons.mp hxs
      obtain ⟨hy, hys⟩ := List.forall_mem_cons.mp hys
      exact List.forall_mem_cons.mpr ⟨(h f x y hx hy).1, ih hxs hys _⟩

/-- Nothing is lost on the way: the carry of each byte is what the next one
finds, and the last one is left over. -/
theorem value_chain (h : CombinesPairs sign op carry) {xs ys : List Byte}
    (hlength : xs.length = ys.length) (hxs : ∀ v ∈ xs, IsPacked v)
    (hys : ∀ v ∈ ys, IsPacked v) (f : φ) :
    (packedValue (chain op f xs ys).1 : Int) =
      packedValue xs + sign * (packedValue ys + (carry f).toNat -
        100 ^ xs.length * (carry (chain op f xs ys).2).toNat) := by
  induction xs generalizing ys f with
  | nil =>
    cases List.eq_nil_of_length_eq_zero hlength.symm
    simp [chain, packedValue]
  | cons x xs ih =>
    obtain ⟨y, ys, rfl⟩ := List.exists_cons_of_length_eq_add_one hlength.symm
    obtain ⟨hx, hxs⟩ := List.forall_mem_cons.mp hxs
    obtain ⟨hy, hys⟩ := List.forall_mem_cons.mp hys
    obtain ⟨_, hpair⟩ := h f x y hx hy
    have hrest := ih (Nat.succ.inj hlength) hxs hys (op f x y).2
    simp only [chain, packedValue, List.length_cons]
    push_cast
    linear_combination hpair + 100 * hrest

variable {f : φ} {bytes x y : Nat} {xs ys : List Byte}

/-- What comes out is a number with as many digits as there is room for, and the
result if the carry is counted. -/
theorem balance (h : CombinesPairs sign op carry) (hclear : carry f = false)
    (hx : Packs bytes x xs) (hy : Packs bytes y ys) :
    packedValue (chain op f xs ys).1 < 100 ^ bytes ∧
    (packedValue (chain op f xs ys).1 : Int) =
      x + sign * (y - 100 ^ bytes * (carry (chain op f xs ys).2).toNat) := by
  obtain ⟨rfl, hxs, rfl⟩ := hx
  obtain ⟨hlength, hys, rfl⟩ := hy
  have hlt := packedValue_lt (h.isPacked_chain hxs hys f)
  have hvalue := h.value_chain hlength.symm hxs hys f
  rw [length_chain hlength.symm] at hlt
  rw [hclear, Bool.toNat_false, Nat.cast_zero, add_zero] at hvalue
  exact ⟨hlt, hvalue⟩

/-- The bytes that come out are the last digits of the result. -/
theorem packs_chain (h : CombinesPairs sign op carry) (hclear : carry f = false)
    (hx : Packs bytes x xs) (hy : Packs bytes y ys) :
    Packs bytes ((x + sign * y) % 100 ^ bytes).toNat (chain op f xs ys).1 := by
  obtain ⟨hlt, hvalue⟩ := h.balance hclear hx hy
  have hlt : (packedValue (chain op f xs ys).1 : Int) < 100 ^ bytes := by exact_mod_cast hlt
  have hmod : (x + sign * y) % 100 ^ bytes = (packedValue (chain op f xs ys).1 : Int) := by
    calc (x + sign * y) % 100 ^ bytes
      _ = (packedValue (chain op f xs ys).1 +
            100 ^ bytes * (sign * (carry (chain op f xs ys).2).toNat)) % 100 ^ bytes := by
        congr 1
        linear_combination -hvalue
      _ = packedValue (chain op f xs ys).1 % 100 ^ bytes := Int.add_mul_emod_self_left ..
      _ = packedValue (chain op f xs ys).1 := Int.emod_eq_of_lt (Int.natCast_nonneg _) hlt
  have hlength : xs.length = ys.length := hx.length.trans hy.length.symm
  refine ⟨(length_chain hlength f).trans hx.length, h.isPacked_chain hx.digits hy.digits f, ?_⟩
  rw [hmod, Int.toNat_natCast]

end CombinesPairs

/-! ## Sums and differences -/

/-- The operation adds packed numbers of any length: what comes out are the last
digits of the sum, and the carry says that there are more. -/
def AddsDecimals (op : φ → Byte → Byte → Byte × φ) (carry : φ → Bool) : Prop :=
  ∀ f bytes x y xs ys, carry f = false → Packs bytes x xs → Packs bytes y ys →
    Packs bytes ((x + y) % 100 ^ bytes) (chain op f xs ys).1 ∧
    (carry (chain op f xs ys).2 = true ↔ 100 ^ bytes ≤ x + y)

/-- The operation subtracts packed numbers of any length: what comes out is the
difference, modulo what there is room for, and the carry says that the first
number is too small. -/
def SubtractsDecimals (op : φ → Byte → Byte → Byte × φ) (carry : φ → Bool) : Prop :=
  ∀ f bytes x y xs ys, carry f = false → Packs bytes x xs → Packs bytes y ys →
    Packs bytes (((x : Int) - y) % 100 ^ bytes).toNat (chain op f xs ys).1 ∧
    (carry (chain op f xs ys).2 = true ↔ x < y)

namespace CombinesPairs

/-- Bytes that are added pair by pair add up to the sum of the numbers. -/
theorem addsDecimals (h : CombinesPairs 1 op carry) : AddsDecimals op carry := by
  intro f bytes x y xs ys hclear hx hy
  obtain ⟨hlt, hvalue⟩ := h.balance hclear hx hy
  have hpacks := h.packs_chain hclear hx hy
  have hmod : ((x + 1 * y : Int) % 100 ^ bytes).toNat = (x + y) % 100 ^ bytes := by
    rw [one_mul]
    exact_mod_cast Int.toNat_natCast _
  refine ⟨hmod ▸ hpacks, ?_⟩
  have hroom : ((100 ^ bytes : Nat) : Int) = 100 ^ bytes := Nat.cast_pow ..
  rw [← hroom] at hvalue
  cases hcarry : carry (chain op f xs ys).2 with
  | false =>
    rw [hcarry, Bool.toNat_false] at hvalue
    exact ⟨fun h => absurd h Bool.false_ne_true, fun _ => by omega⟩
  | true =>
    rw [hcarry, Bool.toNat_true] at hvalue
    exact ⟨fun _ => by omega, fun _ => rfl⟩

theorem subtractsDecimals (h : CombinesPairs (-1) op carry) : SubtractsDecimals op carry := by
  intro f bytes x y xs ys hclear hx hy
  obtain ⟨hlt, hvalue⟩ := h.balance hclear hx hy
  have hpacks := h.packs_chain hclear hx hy
  rw [Int.neg_one_mul, ← sub_eq_add_neg] at hpacks
  refine ⟨hpacks, ?_⟩
  have hxlt : x < 100 ^ bytes := hx.length ▸ hx.value ▸ packedValue_lt hx.digits
  have hroom : ((100 ^ bytes : Nat) : Int) = 100 ^ bytes := Nat.cast_pow ..
  rw [← hroom] at hvalue
  cases hcarry : carry (chain op f xs ys).2 with
  | false =>
    rw [hcarry, Bool.toNat_false] at hvalue
    exact ⟨fun h => absurd h Bool.false_ne_true, fun _ => by omega⟩
  | true =>
    rw [hcarry, Bool.toNat_true] at hvalue
    exact ⟨fun _ => by omega, fun _ => rfl⟩

end CombinesPairs

end Chain

end Retrocore
