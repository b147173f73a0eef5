import Mathlib

/-!
# The grid of binary floating point

Which rational numbers have a binary representation of 53 digits, and what it means to be nearest to
a number among them. `OnGrid` leaves the exponent unbounded above, so that rounding can be stated
without overflow; overflow is a matter of packing.

* `Nearest.eq_of_onGrid`: rounding keeps what is on the grid;
* `Nearest.le_of_le`, `Nearest.le_of_ge`: rounding does not cross the grid, so every bound by a grid
  number survives it;
* `Nearest.error_le`: the error is at most half of the last place of a bound;
* `Nearest.error_le_of_multiple`: relative error for multiples of the smallest number, without an
  exception for numbers near zero;
* `Nearest.add_bounds`: the rounded sum of numbers that are not negative.
-/

namespace CodeQuality

theorem exists_nearest_int (x : ℚ) : ∃ k : ℤ, |x - k| ≤ 1 / 2 := ⟨round x, abs_sub_round x⟩

namespace Binary64

/-- Numbers of at most 53 binary digits, none of them behind the last place `2 ^ (-1074)`. -/
def OnGrid (z : ℚ) : Prop := ∃ (m : ℤ) (q : ℤ), |m| ≤ 2 ^ 53 ∧ -1074 ≤ q ∧ z = m * 2 ^ q

/-- `y` is on the grid and no number of the grid is nearer to `x`. -/
structure Nearest (x y : ℚ) : Prop where
  onGrid : OnGrid y
  closest : ∀ z, OnGrid z → |x - y| ≤ |x - z|

theorem two_zpow_pos (q : ℤ) : (0 : ℚ) < 2 ^ q := zpow_pos (by norm_num) q

theorem two_zpow_add (p q : ℤ) : (2 : ℚ) ^ (p + q) = 2 ^ p * 2 ^ q :=
  zpow_add₀ (by norm_num) p q

/-! ## Numbers on the grid -/

theorem OnGrid.of_natCast {n : ℕ} {q : ℤ} (hn : n ≤ 2 ^ 53) (hq : -1074 ≤ q) :
    OnGrid ((n : ℚ) * 2 ^ q) :=
  ⟨n, q, by rw [Nat.abs_cast]; exact_mod_cast hn, hq, by push_cast; rfl⟩

theorem OnGrid.natCast {n : ℕ} (hn : n ≤ 2 ^ 53) : OnGrid n := by
  simpa using OnGrid.of_natCast hn (q := 0) (by norm_num)

theorem OnGrid.zero : OnGrid 0 := by simpa using OnGrid.natCast (n := 0) (by norm_num)

theorem OnGrid.one : OnGrid 1 := by simpa using OnGrid.natCast (n := 1) (by norm_num)

theorem OnGrid.two_zpow {q : ℤ} (hq : -1074 ≤ q) : OnGrid (2 ^ q) := by
  simpa using OnGrid.of_natCast (n := 1) (by norm_num) hq

theorem OnGrid.neg {z : ℚ} (hz : OnGrid z) : OnGrid (-z) := by
  obtain ⟨m, q, hm, hq, rfl⟩ := hz
  exact ⟨-m, q, by rwa [abs_neg], hq, by push_cast; ring⟩

theorem OnGrid.multiple {z : ℚ} (hz : OnGrid z) : ∃ m : ℤ, z = m * 2 ^ (-1074 : ℤ) := by
  obtain ⟨m, q, -, hq, rfl⟩ := hz
  obtain ⟨d, rfl⟩ := Int.le.dest hq
  refine ⟨m * 2 ^ d, ?_⟩
  rw [two_zpow_add, zpow_natCast, Int.cast_mul, Int.cast_pow, Int.cast_ofNat, mul_comm (2 ^ _),
    ← mul_assoc]

theorem OnGrid.le_or_le {z : ℚ} (hz : OnGrid z) {k : ℕ} {t : ℤ} (ht : t = -1074 ∨ 2 ^ 52 ≤ k) :
    z ≤ k * 2 ^ t ∨ (k + 1) * 2 ^ t ≤ z := by
  obtain ⟨m, q, hm, hq, rfl⟩ := hz
  have hpos := two_zpow_pos t
  by_cases h : t ≤ q
  · -- a multiple of the last place
    obtain ⟨d, rfl⟩ := Int.le.dest h
    have hz : (m : ℚ) * 2 ^ (t + (d : ℤ)) = ((m * 2 ^ d : ℤ) : ℚ) * 2 ^ t := by
      rw [two_zpow_add, zpow_natCast]
      push_cast
      ring
    rw [hz]
    rcases le_or_gt (m * 2 ^ d) (k : ℤ) with hle | hgt
    · left
      have : ((m * 2 ^ d : ℤ) : ℚ) ≤ k := by exact_mod_cast hle
      exact mul_le_mul_of_nonneg_right this hpos.le
    · right
      have : (k : ℚ) + 1 ≤ ((m * 2 ^ d : ℤ) : ℚ) := by exact_mod_cast hgt
      exact mul_le_mul_of_nonneg_right this hpos.le
  · -- finer than the last place, hence below all numbers with a full mantissa
    left
    have hk : 2 ^ 52 ≤ k := ht.resolve_left (by omega)
    have hm' : (m : ℚ) ≤ 2 ^ 53 := by exact_mod_cast (le_abs_self m).trans hm
    have hq' : (2 : ℚ) ^ q ≤ 2 ^ (t - 1) := zpow_le_zpow_right₀ (by norm_num) (by omega)
    calc (m : ℚ) * 2 ^ q ≤ 2 ^ 53 * 2 ^ (t - 1) :=
          mul_le_mul hm' hq' (two_zpow_pos q).le (by norm_num)
      _ = 2 ^ 52 * 2 ^ t := by
          rw [sub_eq_add_neg, two_zpow_add]
          norm_num
          ring
      _ ≤ k * 2 ^ t := mul_le_mul_of_nonneg_right (by exact_mod_cast hk) hpos.le

/-! ## Nearest numbers -/

namespace Nearest

variable {x y z : ℚ}

theorem of_onGrid (hx : OnGrid x) : Nearest x x :=
  ⟨hx, fun z _ => by simp⟩

theorem neg (h : Nearest x y) : Nearest (-x) (-y) := by
  refine ⟨h.onGrid.neg, fun z hz => ?_⟩
  calc |-x - -y| = |x - y| := by rw [← abs_neg, neg_sub_neg, neg_sub]
    _ ≤ |x - -z| := h.closest (-z) hz.neg
    _ = |-x - z| := by rw [← abs_neg, neg_sub, neg_sub_comm]

theorem of_neighbours {k : ℕ} {t : ℤ} (ht : t = -1074 ∨ 2 ^ 52 ≤ k) (hy : OnGrid y)
    (hk : |x - y| ≤ x - k * 2 ^ t) (hk' : |x - y| ≤ (k + 1) * 2 ^ t - x) : Nearest x y := by
  refine ⟨hy, fun z hz => ?_⟩
  rcases hz.le_or_le ht with h | h
  · calc |x - y| ≤ x - k * 2 ^ t := hk
      _ ≤ x - z := by linarith
      _ ≤ |x - z| := le_abs_self _
  · calc |x - y| ≤ (k + 1) * 2 ^ t - x := hk'
      _ ≤ z - x := by linarith
      _ ≤ |x - z| := by rw [abs_sub_comm]; exact le_abs_self _

theorem eq_of_onGrid (h : Nearest x y) (hx : OnGrid x) : y = x := by
  have := h.closest x hx
  rw [sub_self, abs_zero] at this
  exact (sub_eq_zero.1 (abs_nonpos_iff.1 this)).symm

theorem le_of_le (h : Nearest x y) (hz : OnGrid z) (hxz : x ≤ z) : y ≤ z := by
  by_contra hlt
  have := h.closest z hz
  rw [abs_of_nonpos (by linarith), abs_of_nonpos (by linarith)] at this
  linarith

theorem le_of_ge (h : Nearest x y) (hz : OnGrid z) (hzx : z ≤ x) : z ≤ y := by
  by_contra hlt
  have := h.closest z hz
  rw [abs_of_nonneg (by linarith), abs_of_nonneg (by linarith)] at this
  linarith

theorem abs_le_of_abs_le (h : Nearest x y) (hz : OnGrid z) (hxz : |x| ≤ z) : |y| ≤ z :=
  abs_le.2 ⟨h.le_of_ge hz.neg (abs_le.1 hxz).1, h.le_of_le hz (abs_le.1 hxz).2⟩

/-- The error is at most half of the last place. -/
theorem error_le (h : Nearest x y) {n : ℤ} (hn : -1021 ≤ n) (hx : |x| ≤ 2 ^ n) :
    |x - y| ≤ 2 ^ (n - 54) := by
  have hpos := two_zpow_pos (n - 53)
  have hscale : |x / 2 ^ (n - 53)| ≤ 2 ^ 53 := by
    rw [abs_div, abs_of_pos hpos, div_le_iff₀ hpos, ← zpow_natCast, ← two_zpow_add]
    rwa [show ((53 : ℕ) : ℤ) + (n - 53) = n by push_cast; ring]
  -- the nearest multiple of the last place is a number of the grid
  obtain ⟨k, hk⟩ := exists_nearest_int (x / 2 ^ (n - 53))
  have hgrid : OnGrid (k * 2 ^ (n - 53)) := by
    refine ⟨k, _, ?_, by omega, rfl⟩
    have : (|k| : ℚ) < 2 ^ 53 + 1 := by
      have := abs_sub_abs_le_abs_sub (k : ℚ) (x / 2 ^ (n - 53))
      rw [abs_sub_comm] at this
      linarith
    have : |k| < 2 ^ 53 + 1 := by exact_mod_cast this
    omega
  have heq : x - k * 2 ^ (n - 53) = (x / 2 ^ (n - 53) - k) * 2 ^ (n - 53) := by
    rw [sub_mul, div_mul_cancel₀ _ hpos.ne']
  calc |x - y| ≤ |x - k * 2 ^ (n - 53)| := h.closest _ hgrid
    _ = |x / 2 ^ (n - 53) - k| * 2 ^ (n - 53) := by rw [heq, abs_mul, abs_of_pos hpos]
    _ ≤ 1 / 2 * 2 ^ (n - 53) := mul_le_mul_of_nonneg_right hk hpos.le
    _ = 2 ^ (n - 54) := by
        rw [show n - 53 = (n - 54) + 1 by ring, two_zpow_add]
        norm_num
        ring

/-- Relative error of a multiple of the smallest number: exact where the grid is finest. -/
theorem error_le_of_multiple (h : Nearest x y) {m : ℤ} (hm : x = m * 2 ^ (-1074 : ℤ)) :
    |x - y| ≤ |x| * 2 ^ (-53 : ℤ) := by
  by_cases hsmall : |m| ≤ 2 ^ 53
  · have hy : y = x := h.eq_of_onGrid ⟨m, -1074, hsmall, le_refl _, hm⟩
    rw [hy, sub_self, abs_zero]
    exact mul_nonneg (abs_nonneg x) (two_zpow_pos _).le
  · have hbig : (2 : ℚ) ^ (-1021 : ℤ) ≤ |x| := by
      have : (2 : ℚ) ^ 53 ≤ |(m : ℚ)| := by exact_mod_cast (not_le.1 hsmall).le
      calc (2 : ℚ) ^ (-1021 : ℤ) = 2 ^ 53 * 2 ^ (-1074 : ℤ) := by
            rw [← zpow_natCast, ← two_zpow_add]
            norm_num
        _ ≤ |(m : ℚ)| * 2 ^ (-1074 : ℤ) := mul_le_mul_of_nonneg_right this (two_zpow_pos _).le
        _ = |x| := by rw [hm, abs_mul, abs_of_pos (two_zpow_pos _)]
    obtain ⟨n, hlo, hhi⟩ :=
      exists_mem_Ico_zpow (lt_of_lt_of_le (two_zpow_pos _) hbig) (by norm_num : (1 : ℚ) < 2)
    have hn : -1021 ≤ n + 1 := by
      have := (zpow_lt_zpow_iff_right₀ (by norm_num : (1 : ℚ) < 2)).1 (lt_of_le_of_lt hbig hhi)
      omega
    calc |x - y| ≤ 2 ^ (n + 1 - 54) := h.error_le hn hhi.le
      _ = 2 ^ n * 2 ^ (-53 : ℤ) := by rw [← two_zpow_add]; congr 1; ring
      _ ≤ |x| * 2 ^ (-53 : ℤ) := mul_le_mul_of_nonneg_right hlo (two_zpow_pos _).le

/-- The rounded sum of numbers that are not negative: no less than either, and with a relative
error. -/
theorem add_bounds {r s t : ℚ} (h : Nearest (r + s) t) (hr : OnGrid r) (hs : OnGrid s)
    (hr0 : 0 ≤ r) (hs0 : 0 ≤ s) : r ≤ t ∧ s ≤ t ∧ |r + s - t| ≤ (r + s) * 2 ^ (-53 : ℤ) := by
  obtain ⟨m, hm⟩ := hr.multiple
  obtain ⟨n, hn⟩ := hs.multiple
  have hmultiple : r + s = ((m + n : ℤ) : ℚ) * 2 ^ (-1074 : ℤ) := by
    rw [hm, hn, Int.cast_add, add_mul]
  have herror := h.error_le_of_multiple hmultiple
  rw [abs_of_nonneg (add_nonneg hr0 hs0)] at herror
  exact ⟨h.le_of_ge hr (by linarith), h.le_of_ge hs (by linarith), herror⟩

end Nearest

end Binary64

end CodeQuality
