import Mathlib.Tactic.Ring

/-!
# Fixed-point numbers (`lib/fixed_point/include/lib/fixed_point.h`)

Products are rounded to nearest (`mul_rounds`). The quotient by a 64-bit divisor is wrong exactly
where its last remainder does not fit 32 bits (`div_exact`, `div_32_64_loses_bits`).
-/

namespace NusaKernel.FixedPoint

/-- `struct fp_32_64`. -/
structure Fp3264 where
  (l0 l32 l64 : BitVec 32)

/-- The number, in units of `2 ^ -64`. -/
def Fp3264.value (x : Fp3264) : ℕ := x.l0.toNat * 2 ^ 64 + x.l32.toNat * 2 ^ 32 + x.l64.toNat

section Division

/-- `fp_32_64_div_32_32`. -/
def div3232 (dividend divisor : BitVec 32) : Fp3264 :=
  let tmp := dividend.toNat * 2 ^ 32 / divisor.toNat
  let rem := dividend.toNat * 2 ^ 32 % divisor.toNat
  { l0 := .ofNat 32 (tmp / 2 ^ 32)
    l32 := .ofNat 32 tmp
    l64 := .ofNat 32 (rem * 2 ^ 32 / divisor.toNat) }

/-- The two helpers with a 64-bit argument: a digit at a time from the remainder, in 64 bits. -/
def divLong (dividend divisor : ℕ) : Fp3264 :=
  let rem := dividend % divisor
  let tmp := rem * 2 ^ 32 % 2 ^ 64
  { l0 := .ofNat 32 (dividend / divisor)
    l32 := .ofNat 32 (tmp / divisor)
    l64 := .ofNat 32 (tmp % divisor * 2 ^ 32 % 2 ^ 64 / divisor) }

/-- `fp_32_64_div_64_32`. -/
def div6432 (dividend : BitVec 64) (divisor : BitVec 32) : Fp3264 :=
  divLong dividend.toNat divisor.toNat

/-- `fp_32_64_div_32_64`. -/
def div3264 (dividend : BitVec 32) (divisor : BitVec 64) : Fp3264 :=
  divLong dividend.toNat divisor.toNat

/-- One step of a long division. -/
theorem mul_div_eq {v : ℕ} (hv : 0 < v) (d b : ℕ) : d * b / v = d / v * b + d % v * b / v := by
  conv_lhs => rw [← Nat.div_add_mod d v, Nat.add_mul, Nat.mul_assoc, Nat.mul_add_div hv]

theorem digit_lt {v : ℕ} (hv : 0 < v) (d b : ℕ) (hb : 0 < b) : d % v * b / v < b :=
  Nat.div_lt_of_lt_mul (Nat.mul_lt_mul_of_pos_right (Nat.mod_lt d hv) hb)

/-- The quotient is an integer part and two digits to the base `2 ^ 32`. -/
theorem div_digits {v : ℕ} (hv : 0 < v) (d : ℕ) : ∃ first second, first < 2 ^ 32 ∧ second < 2 ^ 32 ∧
    d % v * 2 ^ 32 / v = first ∧ d * 2 ^ 32 % v * 2 ^ 32 / v = second ∧
    d * 2 ^ 32 / v = d / v * 2 ^ 32 + first ∧
    d * 2 ^ 64 / v = d / v * 2 ^ 64 + first * 2 ^ 32 + second := by
  refine ⟨_, _, digit_lt hv d _ (by decide), digit_lt hv (d * 2 ^ 32) _ (by decide), rfl, rfl,
    mul_div_eq hv d _, ?_⟩
  rw [show d * 2 ^ 64 = d * 2 ^ 32 * 2 ^ 32 by omega, mul_div_eq hv, mul_div_eq hv d]
  omega

/-- A remainder that is shifted out of 64 bits gives another digit. -/
theorem shifted_digit_iff {rem v : ℕ} (hpos : 0 < v) (hv : v ≤ 2 ^ 64) :
    rem * 2 ^ 32 % 2 ^ 64 / v = rem * 2 ^ 32 / v ↔ rem < 2 ^ 32 := by
  constructor
  · intro heq
    by_contra hlarge
    have hle : rem * 2 ^ 32 % 2 ^ 64 + v ≤ rem * 2 ^ 32 := by omega
    have hless := Nat.div_le_div_right (c := v) hle
    rw [Nat.add_div_right _ hpos] at hless
    omega
  · intro hlt
    rw [Nat.mod_eq_of_lt (by omega)]

theorem div_long_value {dividend divisor : ℕ} (hpos : 0 < divisor) (hfits : divisor ≤ 2 ^ 64)
    (hquot : dividend / divisor < 2 ^ 32) (hrem : dividend % divisor < 2 ^ 32) :
    (divLong dividend divisor).value = dividend * 2 ^ 64 / divisor ↔
      dividend * 2 ^ 32 % divisor < 2 ^ 32 := by
  obtain ⟨first, second, hfirst, hsecond, hl32, hl64, -, hall⟩ := div_digits hpos dividend
  have hlow : dividend % divisor * 2 ^ 32 % divisor = dividend * 2 ^ 32 % divisor := by
    rw [Nat.mul_mod, Nat.mod_mod, ← Nat.mul_mod]
  rw [← shifted_digit_iff hpos hfits]
  have hle := Nat.div_le_div_right (c := divisor)
    (Nat.mod_le (dividend * 2 ^ 32 % divisor * 2 ^ 32) (2 ^ 64))
  rw [hl64] at hle ⊢
  simp only [divLong, Fp3264.value, BitVec.toNat_ofNat, hlow, hl32, hall,
    Nat.mod_eq_of_lt (show dividend % divisor * 2 ^ 32 < 2 ^ 64 by omega),
    Nat.mod_eq_of_lt hquot, Nat.mod_eq_of_lt hfirst]
  generalize dividend * 2 ^ 32 % divisor * 2 ^ 32 % 2 ^ 64 / divisor = digit at *
  rw [Nat.mod_eq_of_lt (hle.trans_lt hsecond), Nat.add_right_inj]

/-- The quotients are exact to the last bit; with a 64-bit divisor exactly if the last remainder
fits 32 bits. -/
theorem div_exact (n32 v32 : BitVec 32) (n64 v64 : BitVec 64) :
    (0 < v32.toNat → n32.toNat / v32.toNat < 2 ^ 32 →
      (div3232 n32 v32).value = n32.toNat * 2 ^ 64 / v32.toNat) ∧
    (0 < v32.toNat → n64.toNat / v32.toNat < 2 ^ 32 →
      (div6432 n64 v32).value = n64.toNat * 2 ^ 64 / v32.toNat) ∧
    (0 < v64.toNat → n32.toNat / v64.toNat < 2 ^ 32 →
      ((div3264 n32 v64).value = n32.toNat * 2 ^ 64 / v64.toNat ↔
        n32.toNat * 2 ^ 32 % v64.toNat < 2 ^ 32)) := by
  refine ⟨fun hpos hquot => ?_, fun hpos hquot => ?_, fun hpos hquot => ?_⟩
  · obtain ⟨first, second, hfirst, hsecond, -, hl64, htmp, hall⟩ := div_digits hpos n32.toNat
    simp only [div3232, Fp3264.value, BitVec.toNat_ofNat, htmp, hl64, hall]
    omega
  · have hmod (n : ℕ) := (Nat.mod_lt n hpos).trans v32.isLt
    exact (div_long_value hpos (by omega) hquot (hmod _)).mpr (hmod _)
  · exact div_long_value hpos v64.isLt.le hquot ((Nat.mod_le _ _).trans_lt n32.isLt)

/-- The remainder of `1 / 2 ^ 33` is lost when it is shifted. -/
theorem div_32_64_loses_bits :
    (div3264 1 0x200000000).value = 0 ∧ 1 * 2 ^ 64 / 2 ^ 33 = 2 ^ 31 := by
  decide

theorem div_exact_thirds : (div3264 2 3).value = 2 * 2 ^ 64 / 3 :=
  ((div_exact 2 1 0 3).2.2 (by decide) (by decide)).mpr (by decide)

end Division

section Multiplication

/-- `u64_mul_u32_fp32_64`; `mul_u32_u32` is the product, which fits 64 bits. -/
def u64MulU32 (a : BitVec 32) (b : Fp3264) : ℕ :=
  let tmp := a.toNat * b.l32.toNat
  let res0 := (a.toNat * b.l0.toNat + tmp / 2 ^ 32) % 2 ^ 64
  let resL32 := (tmp % 2 ^ 32 + a.toNat * b.l64.toNat / 2 ^ 32) % 2 ^ 64
  let res0 := (res0 + resL32 / 2 ^ 32) % 2 ^ 64
  (res0 + resL32 % 2 ^ 32 / 2 ^ 31) % 2 ^ 64

/-- `u32_mul_u64_fp32_64`. -/
def u32MulU64 (a : BitVec 64) (b : Fp3264) : ℕ :=
  let aR32 := a.toNat / 2 ^ 32
  let a0 := a.toNat % 2 ^ 32
  let resL32 := a0 * b.l0.toNat * 2 ^ 32 % 2 ^ 64
  let resL32 := (resL32 + aR32 * b.l32.toNat * 2 ^ 32 % 2 ^ 64) % 2 ^ 64
  let resL32 := (resL32 + a0 * b.l32.toNat) % 2 ^ 64
  let resL32 := (resL32 + aR32 * b.l64.toNat) % 2 ^ 64
  let resL32 := (resL32 + a0 * b.l64.toNat / 2 ^ 32) % 2 ^ 64
  (resL32 / 2 ^ 32 + resL32 % 2 ^ 32 / 2 ^ 31) % 2 ^ 32

/-- `u64_mul_u64_fp32_64`. -/
def u64MulU64 (a : BitVec 64) (b : Fp3264) : ℕ :=
  let aR32 := a.toNat / 2 ^ 32
  let a0 := a.toNat % 2 ^ 32
  let res0 := aR32 * b.l0.toNat * 2 ^ 32 % 2 ^ 64
  let res0 := (res0 + a0 * b.l0.toNat) % 2 ^ 64
  let res0 := (res0 + aR32 * b.l32.toNat) % 2 ^ 64
  let res0 := (res0 + a0 * b.l32.toNat / 2 ^ 32) % 2 ^ 64
  let resL32 := a0 * b.l32.toNat % 2 ^ 32
  let res0 := (res0 + aR32 * b.l64.toNat / 2 ^ 32) % 2 ^ 64
  let resL32 := (resL32 + aR32 * b.l64.toNat % 2 ^ 32) % 2 ^ 64
  let resL32 := (resL32 + a0 * b.l64.toNat / 2 ^ 32) % 2 ^ 64
  let res0 := (res0 + resL32 / 2 ^ 32) % 2 ^ 64
  (res0 + resL32 % 2 ^ 32 / 2 ^ 31) % 2 ^ 64

/-- The product with `b`, rounded to nearest. -/
def rounded (a : ℕ) (b : Fp3264) : ℕ := (a * b.value + 2 ^ 63) / 2 ^ 64

theorem u64_mul_u32_eq (a : BitVec 32) (b : Fp3264) :
    u64MulU32 a b = rounded a.toNat b % 2 ^ 64 := by
  have hlow : a.toNat * b.l64.toNat < 2 ^ 32 * 2 ^ 32 := Nat.mul_lt_mul'' a.isLt b.l64.isLt
  simp only [u64MulU32, rounded, Fp3264.value, Nat.mul_add, ← Nat.mul_assoc]
  omega

/-- The product from the halves of the factor. -/
theorem mul_value_eq (a : ℕ) (b : Fp3264) : a * b.value =
    a / 2 ^ 32 * b.l0.toNat * 2 ^ 96 + a % 2 ^ 32 * b.l0.toNat * 2 ^ 64 +
      a / 2 ^ 32 * b.l32.toNat * 2 ^ 64 + a % 2 ^ 32 * b.l32.toNat * 2 ^ 32 +
      a / 2 ^ 32 * b.l64.toNat * 2 ^ 32 + a % 2 ^ 32 * b.l64.toNat := by
  conv_lhs => rw [← Nat.div_add_mod a (2 ^ 32), Fp3264.value]
  ring

theorem u32_mul_u64_eq (a : BitVec 64) (b : Fp3264) :
    u32MulU64 a b = rounded a.toNat b % 2 ^ 32 := by
  simp only [u32MulU64, rounded, mul_value_eq]
  omega

theorem u64_mul_u64_eq (a : BitVec 64) (b : Fp3264) :
    u64MulU64 a b = rounded a.toNat b % 2 ^ 64 := by
  have hlow : a.toNat % 2 ^ 32 * b.l64.toNat < 2 ^ 32 * 2 ^ 32 :=
    Nat.mul_lt_mul'' (Nat.mod_lt _ (by decide)) b.l64.isLt
  simp only [u64MulU64, rounded, mul_value_eq]
  omega

/-- All products are rounded to nearest, up to the width of the result, so a result grows with the
factor while it fits. -/
theorem mul_rounds (b : Fp3264) :
    (∀ a, u64MulU32 a b = rounded a.toNat b % 2 ^ 64) ∧
    (∀ a, u64MulU64 a b = rounded a.toNat b % 2 ^ 64) ∧
    (∀ a, u32MulU64 a b = rounded a.toNat b % 2 ^ 32) ∧
    (∀ a a', a ≤ a' → rounded a'.toNat b < 2 ^ 64 → u64MulU32 a b ≤ u64MulU32 a' b) ∧
    (∀ a a', a ≤ a' → rounded a'.toNat b < 2 ^ 64 → u64MulU64 a b ≤ u64MulU64 a' b) ∧
    (∀ a a', a ≤ a' → rounded a'.toNat b < 2 ^ 32 → u32MulU64 a b ≤ u32MulU64 a' b) := by
  have hmono {a a' m : ℕ} (hle : a ≤ a') (hfit : rounded a' b < m) :
      rounded a b % m ≤ rounded a' b % m := by
    rw [Nat.mod_eq_of_lt hfit]
    exact (Nat.mod_le _ _).trans (Nat.div_le_div_right (by gcongr))
  refine ⟨(u64_mul_u32_eq · b), (u64_mul_u64_eq · b), (u32_mul_u64_eq · b), ?_, ?_, ?_⟩
  all_goals intro a a' hle hfit
  · simpa only [u64_mul_u32_eq] using hmono hle hfit
  · simpa only [u64_mul_u64_eq] using hmono hle hfit
  · simpa only [u32_mul_u64_eq] using hmono hle hfit

/-- 100 and 101 times one and a half. -/
theorem mul_rounds_halves : u64MulU32 100 ⟨1, 0x80000000, 0⟩ ≤ u64MulU32 101 ⟨1, 0x80000000, 0⟩ :=
  (mul_rounds _).2.2.2.1 100 101 (by decide) (by decide)

end Multiplication

end NusaKernel.FixedPoint
