import Mathlib.Data.Nat.Sqrt
import CodeQuality.Proofs.Binary64.Range

/-!
# Square roots

The root of a number that is not negative is a number again, and hardly larger (`Denotes.within_sqrt`).

The whole root of the mantissa is computed to enough digits (`sqrtCore_digits`) and then rounded
together with what is left over. A rational number between the whole root and the next one stands in
for the irrational one, since rounding depends only on which half of the gap it is in.
-/

namespace CodeQuality.Binary64

open Float.Model Float.Model.UnpackedFloat

/-- The exponent that the root of a number is computed at. -/
def rootExponent (m : ℕ) (q : ℤ) : ℤ :=
  min (q / 2) (Format.binary64.targetExponent ((totalExponent m q + 1) / 2))

/-- The mantissa that the whole root is taken of. -/
def radicand (m : ℕ) (q : ℤ) : ℕ := m <<< (q - 2 * rootExponent m q).toNat

theorem two_mul_rootExponent_le (m : ℕ) (q : ℤ) : 2 * rootExponent m q ≤ q := by
  have hle : rootExponent m q ≤ q / 2 := min_le_left _ _
  omega

theorem radicand_eq (m : ℕ) (q : ℤ) :
    (radicand m q : ℚ) * (2 ^ rootExponent m q) ^ 2 = m * 2 ^ q := by
  have hle := two_mul_rootExponent_le m q
  have hshift : ((q - 2 * rootExponent m q).toNat : ℤ) + rootExponent m q * 2 = q := by omega
  rw [radicand, Nat.shiftLeft_eq]
  push_cast
  rw [← zpow_natCast, ← zpow_natCast, ← zpow_mul, mul_assoc, ← two_zpow_add]
  congr 2

theorem le_lastPlace_root {m : ℕ} (hm : 0 < m) (q : ℤ) :
    rootExponent m q ≤ lastPlace (radicand m q).sqrt (rootExponent m q) := by
  have hplace : rootExponent m q = min (q / 2) (max ((m.log2 + 1 + q + 1) / 2 - 53) (-1074)) := rfl
  -- at the smallest exponent any mantissa will do; above it the mantissa has 53 digits
  by_cases hmin : rootExponent m q ≤ -1074
  · rw [lastPlace_eq]
    omega
  · refine lastPlace_of_le ?_
    rw [Nat.le_sqrt', radicand, Nat.shiftLeft_eq]
    have hdigits : 104 ≤ m.log2 + (q - 2 * rootExponent m q).toNat := by omega
    calc (2 ^ 52) ^ 2 = 2 ^ 104 := by norm_num
      _ ≤ 2 ^ (m.log2 + (q - 2 * rootExponent m q).toNat) := Nat.pow_le_pow_right (by norm_num) hdigits
      _ = 2 ^ m.log2 * 2 ^ (q - 2 * rootExponent m q).toNat := pow_add _ _ _
      _ ≤ m * 2 ^ (q - 2 * rootExponent m q).toNat :=
        Nat.mul_le_mul_right _ (Nat.log2_self_le hm.ne')

theorem sqrtCore_truncates (m : ℕ) (q : ℤ) :
    ∃ f : ℚ, 0 ≤ f ∧ f < 1 ∧
      Truncates (.ofMantissaAndAccuracy (radicand m q).sqrt (sqrtCore Format.binary64 m q).2.2)
        ((radicand m q).sqrt + f) := by
  have haccuracy : (sqrtCore Format.binary64 m q).2.2 =
      if radicand m q - (radicand m q).sqrt * (radicand m q).sqrt = 0 then .exact
      else .inexact (if radicand m q - (radicand m q).sqrt * (radicand m q).sqrt ≤ (radicand m q).sqrt
        then .lt else .gt) := rfl
  rw [haccuracy]
  generalize radicand m q - (radicand m q).sqrt * (radicand m q).sqrt = rest
  by_cases hexact : rest = 0
  · refine ⟨0, le_refl 0, by norm_num, ?_⟩
    rw [if_pos hexact, add_zero]
    exact Truncates.of_exact _
  · rw [if_neg hexact]
    -- a quarter stands for the lower half of the gap, and three quarters for the upper one
    by_cases hlow : rest ≤ (radicand m q).sqrt
    · rw [if_pos hlow]
      exact ⟨1 / 4, by norm_num, by norm_num,
        Truncates.of_inexact _ (by norm_num) (by norm_num) (iff_of_true rfl (by norm_num))
          (iff_of_false nofun (by norm_num))⟩
    · rw [if_neg hlow]
      exact ⟨3 / 4, by norm_num, by norm_num,
        Truncates.of_inexact _ (by norm_num) (by norm_num) (iff_of_false nofun (by norm_num))
          (iff_of_false nofun (by norm_num))⟩

theorem sqrt_rounds {m : ℕ} (hm : 0 < m) (q : ℤ) :
    ∃ f : ℚ, 0 ≤ f ∧ f < 1 ∧
      Rounds (((radicand m q).sqrt + f) * 2 ^ rootExponent m q)
        (UnpackedFloat.sqrt Format.binary64 (.finite .positive m q hm)) := by
  obtain ⟨f, hf, hf', htruncates⟩ := sqrtCore_truncates m q
  refine ⟨f, hf, hf', ?_⟩
  refine roundWithAccuracy_rounds (q := rootExponent m q) ?_ (le_lastPlace_root hm q) .positive
  rw [mul_div_cancel_right₀ _ (two_zpow_pos _).ne']
  exact htruncates

theorem le_two_pow_of_sq_le {a : ℚ} {p : ℕ} (h : a ^ 2 ≤ 2 ^ p) : a ≤ 2 ^ p := by
  have hone : (1 : ℚ) ≤ 2 ^ p := one_le_pow₀ (by norm_num)
  nlinarith [sq_nonneg (a - 1)]

theorem abs_root_le {m p : ℕ} (hm : 0 < m) {q : ℤ} (hle : (m : ℚ) * 2 ^ q ≤ 2 ^ p) {f : ℚ}
    (hf : 0 ≤ f) (hf' : f < 1) :
    |((radicand m q).sqrt + f) * 2 ^ rootExponent m q| ≤ 2 ^ (p + 1) := by
  have hunit := two_zpow_pos (rootExponent m q)
  have hwhole : (radicand m q).sqrt * 2 ^ rootExponent m q ≤ (2 : ℚ) ^ p := by
    have hsquare : ((radicand m q).sqrt : ℚ) ^ 2 ≤ radicand m q := by exact_mod_cast Nat.sqrt_le' _
    apply le_two_pow_of_sq_le
    calc ((radicand m q).sqrt * 2 ^ rootExponent m q : ℚ) ^ 2
        = ((radicand m q).sqrt : ℚ) ^ 2 * (2 ^ rootExponent m q) ^ 2 := mul_pow _ _ _
      _ ≤ radicand m q * (2 ^ rootExponent m q) ^ 2 := mul_le_mul_of_nonneg_right hsquare (sq_nonneg _)
      _ = m * 2 ^ q := radicand_eq m q
      _ ≤ 2 ^ p := hle
  have hsmall : (2 : ℚ) ^ rootExponent m q ≤ 2 ^ p := by
    have hle' := two_mul_rootExponent_le m q
    have hone : (1 : ℚ) ≤ m := by exact_mod_cast hm
    apply le_two_pow_of_sq_le
    calc ((2 : ℚ) ^ rootExponent m q) ^ 2 = 2 ^ (2 * rootExponent m q) := by
          rw [← zpow_natCast, ← zpow_mul, mul_comm]
          norm_cast
      _ ≤ 2 ^ q := zpow_le_zpow_right₀ (by norm_num) hle'
      _ ≤ m * 2 ^ q := le_mul_of_one_le_left (two_zpow_pos q).le hone
      _ ≤ 2 ^ p := hle
  rw [abs_of_nonneg (by positivity), pow_succ, add_mul]
  have hpart : f * 2 ^ rootExponent m q ≤ 1 * 2 ^ rootExponent m q :=
    mul_le_mul_of_nonneg_right hf'.le hunit.le
  linarith

/-- The root of a number up to a power of two is at most twice that power. -/
theorem Denotes.within_sqrt {x : Float} {r : ℚ} {p : ℕ} (hx : Denotes x r) (hr : 0 ≤ r)
    (hle : r ≤ 2 ^ p) (hp : p < 1023) : Within x.sqrt (p + 1) := by
  have hsqrt : x.sqrt = .ofModel (.pack (UnpackedFloat.sqrt Format.binary64 (form x))) := rfl
  obtain ⟨hcanonical, hvalue⟩ := hx
  rcases hcanonical.zero_or_finite with ⟨s, h⟩ | ⟨s, m, q, hm, h⟩
  · have hform : form x.sqrt = .zero s := by
      rw [hsqrt, h]
      exact unpack_pack_zero s
    exact ⟨0, .of_form hform trivial, by simp⟩
  · rw [h] at hvalue
    cases s with
    | negative => exact absurd hr (not_le.2 (hvalue ▸ value_lt_zero hm))
    | positive =>
      obtain ⟨f, hf, hf', hrounds⟩ := sqrt_rounds hm q
      have hbound : (m : ℚ) * 2 ^ q ≤ 2 ^ p := by
        rw [← hvalue] at hle
        exact hle
      rw [hsqrt, h]
      exact (pack_roundsTo hrounds).within (abs_root_le hm hbound hf hf') hp

end CodeQuality.Binary64
