import Mathlib
import CodeQuality.Decimal.Basic
import CodeQuality.Number.Statistics
import CodeQuality.Proofs.Score.Rescaling

/-!
# Exact arithmetic

The real numbers as numbers of scores. A formula of the library at this instance is the formula without
any rounding of its own, so that a law can be stated of the very definitions that run at floating point.
The instance is scoped: `open Exact` brings it in.

* the choices between two numbers are the larger and the smaller one, sums are sums;
* a mean, and a number moved into a band, lie in the band, and both are monotone;
* rounding to two decimals is monotone, and a number with two decimals stays as it is;
* sound weights lie between `0` and `1`.
-/

namespace CodeQuality.Exact

/-- The nearest whole number; a half goes away from zero. -/
noncomputable def roundAway (x : ℝ) : ℤ := if x < 0 then -round (-x) else round x

/-- The whole number nearest to a number that is not negative; a half goes to the even neighbour. -/
noncomputable def roundEven (x : ℝ) : ℕ :=
  let rest := x - ⌊x⌋₊
  if rest < 0.5 then ⌊x⌋₊ else if 0.5 < rest then ⌊x⌋₊ + 1 else ⌊x⌋₊ + ⌊x⌋₊ % 2

noncomputable scoped instance : Scalar ℝ where
  decLt := Real.decidableLT
  decLe := Real.decidableLE
  beq x y := decide (x = y)
  ofNat n := n
  sqrt := Real.sqrt
  ln := Real.log
  sin := Real.sin
  round x := roundAway x
  count x := min ⌊x⌋₊ (2 ^ 64 - 1)
  nonFinite? _ := none
  fixed places x := Decimal.fixedText (decide (x < 0)) (roundEven (|x| * 10 ^ places)) places

open Set
open Scalar hiding round

variable {x y lo hi : ℝ} {xs ys : List ℝ}

/-! ## Choices and sums -/

theorem larger_eq_max (x y : ℝ) : larger x y = max x y := by
  unfold larger
  split
  next h => exact (max_eq_right h.le).symm
  next h => rw [if_pos le_rfl, max_eq_left (not_lt.1 h)]

theorem smaller_eq_min (x y : ℝ) : smaller x y = min x y := by
  unfold smaller
  split
  next h => exact (min_eq_right h.le).symm
  next h => rw [if_pos le_rfl, min_eq_left (not_lt.1 h)]

theorem magnitude_eq_abs (x : ℝ) : magnitude x = |x| := by
  unfold magnitude
  norm_num
  split
  next h => exact (abs_of_neg h).symm
  next h => exact (abs_of_nonneg (not_lt.1 h)).symm

theorem clamp_mem (h : lo ≤ hi) (x : ℝ) : clamp lo hi x ∈ Icc lo hi := by
  unfold clamp
  split
  · exact left_mem_Icc.2 h
  next hlo =>
    split
    · exact right_mem_Icc.2 h
    next hhi => exact ⟨not_lt.1 hlo, not_lt.1 hhi⟩

theorem clampScore_mem (x : ℝ) : clampScore x ∈ Icc 0 100 := by
  have hband : clampScore x = clamp 0 100 x := by norm_num [clampScore]
  rw [hband]
  exact clamp_mem (by norm_num) x

theorem clampScore_eq (x : ℝ) : clampScore x = max 0 (min x 100) := by
  have hzero : (0.0 : ℝ) = 0 := by norm_num
  have hhundred : (100.0 : ℝ) = 100 := by norm_num
  rw [clampScore, clamp, hzero, hhundred]
  split
  next h => rw [min_eq_left (by linarith), max_eq_left h.le]
  next h =>
    split
    next h' => rw [min_eq_right h'.le, max_eq_right (by norm_num)]
    next h' => rw [min_eq_left (not_lt.1 h'), max_eq_right (not_lt.1 h)]

theorem clampScore_mono (h : x ≤ y) : clampScore x ≤ clampScore y := by
  rw [clampScore_eq, clampScore_eq]
  exact max_le_max le_rfl (min_le_min_right 100 h)

theorem clampScore_of_mem (h : x ∈ Icc 0 100) : clampScore x = x := by
  rw [clampScore_eq, min_eq_left h.2, max_eq_right h.1]

theorem total_eq_sum (xs : List ℝ) : total xs = xs.sum := by
  norm_num [total, List.sum_eq_foldl]

theorem sum_mem (h : ∀ x ∈ xs, x ∈ Icc lo hi) : xs.sum ∈ Icc (xs.length * lo) (xs.length * hi) := by
  rw [← nsmul_eq_mul, ← nsmul_eq_mul]
  exact ⟨List.card_nsmul_le_sum xs lo fun x hx => (h x hx).1,
    List.sum_le_card_nsmul xs hi fun x hx => (h x hx).2⟩

theorem mean_mem (hzero : 0 ∈ Icc lo hi) (h : ∀ x ∈ xs, x ∈ Icc lo hi) : mean xs ∈ Icc lo hi := by
  unfold mean
  split
  · norm_num
    exact hzero
  next hne =>
    have hpos : (0 : ℝ) < xs.length := by
      exact_mod_cast List.length_pos_of_ne_nil (by simpa using hne)
    obtain ⟨hlo, hhi⟩ := sum_mem h
    rw [total_eq_sum]
    exact ⟨(le_div_iff₀' hpos).2 hlo, (div_le_iff₀' hpos).2 hhi⟩

theorem mean_mono (h : List.Forall₂ (· ≤ ·) xs ys) : mean xs ≤ mean ys := by
  cases h with
  | nil => exact le_rfl
  | cons hxy h =>
    rw [mean, mean, List.isEmpty_cons, List.isEmpty_cons, total_eq_sum, total_eq_sum, List.length_cons,
      List.length_cons, h.length_eq]
    exact div_le_div_of_nonneg_right (h.cons hxy).sum_le_sum (Nat.cast_nonneg _)

theorem mean_singleton (x : ℝ) : mean [x] = x := by
  have hmean : mean [x] = total [x] / ((1 : ℕ) : ℝ) := rfl
  rw [hmean, total_eq_sum, List.sum_singleton, Nat.cast_one, div_one]

theorem deviation_nonneg (xs : List ℝ) : 0 ≤ deviation xs := by
  unfold deviation
  split
  · norm_num
  · exact Real.sqrt_nonneg _

/-! ## Two decimals -/

theorem roundAway_intCast (n : ℤ) : roundAway n = n := by
  unfold roundAway
  split
  · rw [← Int.cast_neg, round_intCast, neg_neg]
  · exact round_intCast n

theorem roundAway_mono (h : x ≤ y) : roundAway x ≤ roundAway y := by
  have hround {x y : ℝ} (h : x ≤ y) : round x ≤ round y := by
    rw [round_eq, round_eq]
    exact Int.floor_le_floor (by linarith)
  have hnonneg {x : ℝ} (h : 0 ≤ x) : 0 ≤ round x := by simpa using hround h
  unfold roundAway
  split
  next hx =>
    split
    · exact neg_le_neg (hround (by linarith))
    next hy =>
      -- what is below zero is rounded to at most zero, and the rest to at least zero
      have hleft : 0 ≤ round (-x) := hnonneg (by linarith)
      have hright : 0 ≤ round y := hnonneg (by linarith)
      omega
  next hx =>
    rw [if_neg (by linarith)]
    exact hround h

theorem hundredths_eq (x : ℝ) : hundredths x = roundAway (x * 100) / 100 := by
  have hhundred : (100.0 : ℝ) = 100 := by norm_num
  show (roundAway (x * 100.0) : ℝ) / 100.0 = _
  rw [hhundred]

theorem hundredths_mono (h : x ≤ y) : hundredths x ≤ hundredths y := by
  rw [hundredths_eq, hundredths_eq]
  have hround : roundAway (x * 100) ≤ roundAway (y * 100) :=
    roundAway_mono (mul_le_mul_of_nonneg_right h (by norm_num))
  exact div_le_div_of_nonneg_right (by exact_mod_cast hround) (by norm_num)

theorem hundredths_intCast_div (n : ℤ) : hundredths ((n : ℝ) / 100) = n / 100 := by
  rw [hundredths_eq, div_mul_cancel₀ _ (by norm_num), roundAway_intCast]

@[simp] theorem hundredths_hundredths (x : ℝ) : hundredths (hundredths x) = hundredths x := by
  rw [hundredths_eq x, hundredths_intCast_div]

@[simp] theorem hundredths_ofNat (n : ℕ) [n.AtLeastTwo] :
    hundredths (OfNat.ofNat n : ℝ) = OfNat.ofNat n := by
  have h := hundredths_intCast_div (OfNat.ofNat n * 100)
  push_cast at h
  rwa [mul_div_cancel_right₀ _ (by norm_num)] at h

@[simp] theorem hundredths_zero : hundredths (0 : ℝ) = 0 := by
  simpa using hundredths_intCast_div 0

theorem hundredths_mem (hlo : hundredths lo = lo) (hhi : hundredths hi = hi) (h : x ∈ Icc lo hi) :
    hundredths x ∈ Icc lo hi :=
  ⟨hlo.symm.le.trans (hundredths_mono h.1), (hundredths_mono h.2).trans hhi.le⟩

theorem hundredths_percent (h : x ∈ Icc 0 100) : hundredths x ∈ Icc 0 100 :=
  hundredths_mem hundredths_zero (hundredths_ofNat 100) h

theorem hundredths_nonneg (h : 0 ≤ x) : 0 ≤ hundredths x := by
  simpa using hundredths_mono h

/-! ## Weights -/

theorem inRange_iff : Weights.inRange x = true ↔ x ∈ Icc 0 1 := by
  rw [Weights.inRange, Bool.and_eq_true, decide_eq_true_iff, decide_eq_true_iff, mem_Icc]
  norm_num

theorem fault?_eq_none_iff {w : Weights ℝ} :
    Weights.fault? w = none ↔ (∀ c, w.get c ∈ Icc 0 1) ∧ |w.sum - 1| ≤ 0.001 := by
  rw [Weights.fault?_eq_none_iff]
  refine and_congr (forall_congr' fun c => inRange_iff) ?_
  have hone : (1.0 : ℝ) = 1 := by norm_num
  rw [Weights.isUnbalanced, decide_eq_false_iff_not, not_lt, magnitude_eq_abs, hone]
  rfl

theorem fault?_standard : Weights.fault? (Weights.standard : Weights ℝ) = none := by
  refine fault?_eq_none_iff.2 ⟨fun c => ?_, ?_⟩
  · cases c <;> norm_num [Weights.standard, ByCategory.get]
  · norm_num [Weights.standard, Weights.sum]

end CodeQuality.Exact
