import CodeQuality.Proofs.Binary64.Spacing

/-!
# Relative errors

How far computed sums and products of numbers that are not negative are off the exact ones. `Close v e k`
says that `v` is off `e` by the relative errors of `k` roundings at most: sums keep `k`, products add their
counts, and each rounding adds one. `Approximates x e k p t` says so of the number of a value that is
`Spaced x p t`. The spacing is what makes the error of a rounding relative: a multiple of the smallest number
is never too near zero for the grid (`Nearest.relative_error`).

A difference has no relative error. It is off by the errors of what is taken from each other
(`Approximates.sub_error`).
-/

namespace CodeQuality.Binary64

open Scalar

/-- The relative error of a rounding. -/
def roundoff : ℚ := 2 ^ (-53 : ℤ)

theorem roundoff_pos : 0 < roundoff := two_zpow_pos _

theorem roundoff_le_one : roundoff ≤ 1 := by norm_num [roundoff]

section rounding

variable {x y s : ℚ} {t u : ℤ}

theorem Multiple.mono (h : Multiple t x) (hut : u ≤ t) : Multiple u x := by
  obtain ⟨m, rfl⟩ := h
  obtain ⟨d, rfl⟩ := Int.le.dest hut
  refine ⟨m * 2 ^ d, ?_⟩
  rw [two_zpow_add, zpow_natCast]
  push_cast
  ring

theorem Nearest.relative_error (h : Nearest x y) (hx : Multiple t x) (ht : -1074 ≤ t) :
    |x - y| ≤ |x| * roundoff := by
  obtain ⟨m, hm⟩ := hx.mono ht
  exact h.error_le_of_multiple hm

/-- Near zero the error may be large, but a rounding does not do more than double a number. -/
theorem Nearest.abs_le_two_mul (h : Nearest x y) : |y| ≤ 2 * |x| := by
  have hzero := h.closest 0 OnGrid.zero
  rw [sub_zero] at hzero
  calc |y| ≤ |x| + |x - y| := by
        rw [abs_sub_comm]
        linarith [abs_sub_abs_le_abs_sub y x]
    _ ≤ 2 * |x| := by linarith

theorem Nearest.error_le_summand (h : Nearest (x + s) y) (hx : OnGrid x) :
    |y - x| ≤ 2 * |s| := by
  have hclosest := h.closest x hx
  rw [add_sub_cancel_left] at hclosest
  calc |y - x| ≤ |y - (x + s)| + |s| := by
        have hsplit : y - x = (y - (x + s)) + s := by ring
        rw [hsplit]
        exact abs_add_le _ _
    _ ≤ 2 * |s| := by
        rw [abs_sub_comm]
        linarith

end rounding

/-! ## Close numbers -/

/-- `v` is off `e` by the relative errors of `k` roundings at most. -/
structure Close (v e : ℚ) (k : ℕ) : Prop where
  nonneg : 0 ≤ e
  lower : e * (1 - roundoff) ^ k ≤ v
  upper : v ≤ e * (1 + roundoff) ^ k

namespace Close

variable {v w e f : ℚ} {j k : ℕ}

theorem refl (he : 0 ≤ e) : Close e e 0 := ⟨he, by simp, by simp⟩

theorem mono (h : Close v e j) (hjk : j ≤ k) : Close v e k where
  nonneg := h.nonneg
  lower := h.lower.trans' <| mul_le_mul_of_nonneg_left
    (pow_le_pow_of_le_one (by linarith [roundoff_le_one]) (by linarith [roundoff_pos]) hjk) h.nonneg
  upper := h.upper.trans <| mul_le_mul_of_nonneg_left
    (pow_le_pow_right₀ (by linarith [roundoff_pos]) hjk) h.nonneg

theorem lower_nonneg (he : 0 ≤ e) (k : ℕ) : 0 ≤ e * (1 - roundoff) ^ k :=
  mul_nonneg he (pow_nonneg (by linarith [roundoff_le_one]) k)

theorem nonneg_left (h : Close v e k) : 0 ≤ v := (lower_nonneg h.nonneg k).trans h.lower

theorem add (hv : Close v e k) (hw : Close w f k) : Close (v + w) (e + f) k where
  nonneg := add_nonneg hv.nonneg hw.nonneg
  lower := by
    rw [add_mul]
    exact add_le_add hv.lower hw.lower
  upper := by
    rw [add_mul]
    exact add_le_add hv.upper hw.upper

theorem mul (hv : Close v e j) (hw : Close w f k) : Close (v * w) (e * f) (j + k) where
  nonneg := mul_nonneg hv.nonneg hw.nonneg
  lower := by
    rw [pow_add, mul_mul_mul_comm]
    exact mul_le_mul hv.lower hw.lower (lower_nonneg hw.nonneg k) hv.nonneg_left
  upper := by
    rw [pow_add, mul_mul_mul_comm]
    exact mul_le_mul hv.upper hw.upper hw.nonneg_left (hv.nonneg_left.trans hv.upper)

theorem round (h : Close v e k) (hw : |v - w| ≤ v * roundoff) : Close w e (k + 1) where
  nonneg := h.nonneg
  lower := by
    calc e * (1 - roundoff) ^ (k + 1) = e * (1 - roundoff) ^ k * (1 - roundoff) := by ring
      _ ≤ v * (1 - roundoff) :=
          mul_le_mul_of_nonneg_right h.lower (by linarith [roundoff_le_one])
      _ ≤ w := by linarith [(abs_le.1 hw).2]
  upper := by
    calc w ≤ v * (1 + roundoff) := by linarith [(abs_le.1 hw).1]
      _ ≤ e * (1 + roundoff) ^ k * (1 + roundoff) :=
          mul_le_mul_of_nonneg_right h.upper (by linarith [roundoff_pos])
      _ = e * (1 + roundoff) ^ (k + 1) := by ring

theorem error_le (h : Close v e k) (hk : k * roundoff ≤ 1 / 2) :
    |v - e| ≤ e * (2 * k * roundoff) := by
  have hpos : 0 ≤ k * roundoff := mul_nonneg (Nat.cast_nonneg k) roundoff_pos.le
  have hbelow : 1 - k * roundoff ≤ (1 - roundoff) ^ k := by
    have h := one_add_mul_le_pow (a := -roundoff) (by linarith [roundoff_le_one]) k
    rwa [mul_neg, ← sub_eq_add_neg, ← sub_eq_add_neg] at h
  have habove : (1 + roundoff) ^ k ≤ 1 + 2 * k * roundoff := by
    -- the factors of one rounding up and one rounding down are below `1` together
    have hone : (1 + roundoff) ^ k * (1 - roundoff) ^ k ≤ 1 := by
      rw [← mul_pow]
      exact pow_le_one₀ (by nlinarith [roundoff_pos, roundoff_le_one]) (by nlinarith [roundoff_pos])
    have hpow : 0 ≤ (1 + roundoff) ^ k := pow_nonneg (by linarith [roundoff_pos]) k
    refine le_of_mul_le_mul_right ?_ (by linarith : 0 < 1 - k * roundoff)
    calc (1 + roundoff) ^ k * (1 - k * roundoff) ≤ (1 + roundoff) ^ k * (1 - roundoff) ^ k :=
          mul_le_mul_of_nonneg_left hbelow hpow
      _ ≤ 1 := hone
      _ ≤ (1 + 2 * k * roundoff) * (1 - k * roundoff) := by nlinarith
  have hlower := (mul_le_mul_of_nonneg_left hbelow h.nonneg).trans h.lower
  have hupper := h.upper.trans (mul_le_mul_of_nonneg_left habove h.nonneg)
  have herror : 0 ≤ e * (k * roundoff) := mul_nonneg h.nonneg hpos
  exact abs_le.2 ⟨by linarith, by linarith⟩

end Close

/-! ## Approximate values -/

/-- `x` is a number that is close to `e`, at most `2 ^ p` and a multiple of `2 ^ t`. -/
def Approximates (x : Float) (e : ℚ) (k p : ℕ) (t : ℤ) : Prop :=
  ∃ v, Denotes x v ∧ |v| ≤ 2 ^ p ∧ Multiple t v ∧ Close v e k

section approximates

variable {x y : Float} {v e f : ℚ} {j k p q : ℕ} {t u : ℤ}

theorem Approximates.spaced (h : Approximates x e k p t) : Spaced x p t := by
  obtain ⟨v, hv, hle, hmultiple, -⟩ := h
  exact ⟨v, hv, hle, hmultiple⟩

theorem Approximates.mono (h : Approximates x e j p t) (hjk : j ≤ k) (hpq : p ≤ q) :
    Approximates x e k q t := by
  obtain ⟨v, hv, hle, hmultiple, hclose⟩ := h
  exact ⟨v, hv, hle.trans (pow_le_pow_right₀ (by norm_num) hpq), hmultiple, hclose.mono hjk⟩

theorem Approximates.of_eq (h : Approximates x e k p t) (he : e = f) : Approximates x f k p t := he ▸ h

theorem Denotes.approximates (hx : Denotes x v) (h0 : 0 ≤ v) (hle : v ≤ 2 ^ p)
    (hmultiple : Multiple t v) : Approximates x v 0 p t :=
  ⟨v, hx, by rwa [abs_of_nonneg h0], hmultiple, Close.refl h0⟩

theorem approximates_zero : Approximates 0.0 0 0 p t :=
  denotes_zero.approximates le_rfl (by positivity) Multiple.zero

theorem RoundsTo.approximates (h : RoundsTo x v) (hclose : Close v e k) (hx : Spaced x p t)
    (hv : Multiple t v) (ht : -1074 ≤ t) : Approximates x e (k + 1) p t := by
  obtain ⟨w, hw, hle, hmultiple⟩ := hx
  have herror := (h.nearest hw).relative_error hv ht
  rw [abs_of_nonneg hclose.nonneg_left] at herror
  exact ⟨w, hw, hle, hmultiple, hclose.round herror⟩

theorem Approximates.mul (hx : Approximates x e j p t) (hy : Approximates y f k q u)
    (hpq : p + q ≤ 1023) (ht : -1074 ≤ t + u) :
    Approximates (x * y) (e * f) (j + k + 1) (p + q) (t + u) := by
  have hspaced := hx.spaced.mul hy.spaced hpq ht
  obtain ⟨v, hv, -, hvt, hve⟩ := hx
  obtain ⟨w, hw, -, hwu, hwf⟩ := hy
  exact (mul_roundsTo hv hw).approximates (hve.mul hwf) hspaced (hvt.mul hwu) ht

theorem Approximates.add_absorb (hx : Approximates x e k (p + 55) t) (hy : Approximates y f k p t)
    (hp : p + 55 < 1023) (ht : -1074 ≤ t) : Approximates (x + y) (e + f) (k + 1) (p + 55) t := by
  have hspaced := hx.spaced.add_absorb hy.spaced hp ht
  obtain ⟨v, hv, -, hvt, hve⟩ := hx
  obtain ⟨w, hw, -, hwt, hwf⟩ := hy
  exact (add_roundsTo hv hw).approximates (hve.add hwf) hspaced (hvt.add hwt) ht

theorem Approximates.sub_error (hx : Approximates x e k p t) (hy : Approximates y f k p t)
    (hp : p < 1023) (ht : -1074 ≤ t) (hk1 : 1 ≤ k) (hk : k * roundoff ≤ 1 / 2) :
    ∃ d, Denotes (x - y) d ∧ |d - (e - f)| ≤ (e + f) * (4 * k * roundoff) := by
  obtain ⟨d, hd, -⟩ := hx.spaced.sub hy.spaced hp ht
  obtain ⟨v, hv, -, hvt, hve⟩ := hx
  obtain ⟨w, hw, -, hwt, hwf⟩ := hy
  refine ⟨d, hd, ?_⟩
  have hround := ((sub_roundsTo hv hw).nearest hd).relative_error (hvt.sub hwt) ht
  have hv' := abs_le.1 (hve.error_le hk)
  have hw' := abs_le.1 (hwf.error_le hk)
  have he := hve.nonneg
  have hf := hwf.nonneg
  -- what is taken from each other is at most twice as large as the exact numbers
  have hsize : |v - w| ≤ 2 * (e + f) := by
    have hev : e * (2 * k * roundoff) ≤ e := mul_le_of_le_one_right he (by linarith)
    have hfw : f * (2 * k * roundoff) ≤ f := mul_le_of_le_one_right hf (by linarith)
    exact abs_le.2 ⟨by linarith [hve.nonneg_left], by linarith [hwf.nonneg_left]⟩
  have hlast : |v - w - d| ≤ (e + f) * (2 * k * roundoff) := by
    have hone : (1 : ℚ) ≤ k := by exact_mod_cast hk1
    calc |v - w - d| ≤ |v - w| * roundoff := hround
      _ ≤ 2 * (e + f) * roundoff := mul_le_mul_of_nonneg_right hsize roundoff_pos.le
      _ = (e + f) * (2 * 1 * roundoff) := by ring
      _ ≤ (e + f) * (2 * k * roundoff) := by
          refine mul_le_mul_of_nonneg_left ?_ (add_nonneg he hf)
          exact mul_le_mul_of_nonneg_right (by linarith) roundoff_pos.le
  have hlast' := abs_le.1 hlast
  exact abs_le.2 ⟨by linarith, by linarith⟩

end approximates

end CodeQuality.Binary64
