import CodeQuality.Proofs.Exact.Arithmetic

/-!
# The regression line

`slope_leastSquares`: in exact arithmetic the slope of a series is that of the line with the least squared
error, for every series of two values or more.

The sums of a regression line are known in closed form as far as they do not depend on the values
(`lineSums_positions`), and so is what the slope divides by (`spread_eq`), which is never zero
(`spread_pos`). The squared error of any line is a quadratic form in these sums (`squaredError_eq`). What
it is above that of the regression line is a sum of two squares (`squaredError_sub`), because the
regression line meets the normal equations (`normal_equations`).
-/

namespace CodeQuality.Exact

open Scalar hiding round slope

variable {ys : List ℝ}

/-- The sum of the squares of what a series is off the line `a + b * i`. -/
noncomputable def squaredError (ys : List ℝ) (a b : ℝ) : ℝ :=
  (ys.zipIdx.map fun p => (p.1 - a - b * p.2) ^ 2).sum

/-- What the slope divides by. -/
noncomputable def spread (ys : List ℝ) : ℝ :=
  ys.length * (LineSums.of ys).xx - (LineSums.of ys).x * (LineSums.of ys).x

/-- Where the regression line begins: at the middle of the positions it takes the mean of the values. -/
noncomputable def intercept (ys : List ℝ) : ℝ := mean ys - Scalar.slope ys * (ys.length - 1) / 2.0

/-! ## One more value -/

theorem squaredError_concat (ys : List ℝ) (y a b : ℝ) :
    squaredError (ys ++ [y]) a b = squaredError ys a b + (y - a - b * ys.length) ^ 2 := by
  simp [squaredError, List.zipIdx_append]

theorem lineSums_concat (ys : List ℝ) (y : ℝ) :
    LineSums.of (ys ++ [y]) =
      ⟨(LineSums.of ys).x + ys.length, (LineSums.of ys).y + y, (LineSums.of ys).xy + ys.length * y,
        (LineSums.of ys).xx + ys.length * ys.length⟩ := LineSums.of_concat ys y

/-! ## Sums -/

/-- The sums that depend on the number of values alone. -/
theorem lineSums_positions (ys : List ℝ) :
    (LineSums.of ys).x = ys.length * (ys.length - 1) / 2 ∧
      (LineSums.of ys).xx = ys.length * (ys.length - 1) * (2 * ys.length - 1) / 6 := by
  induction ys using List.reverseRecOn with
  | nil => norm_num [LineSums.of]
  | append_singleton ys y ih =>
    rw [lineSums_concat, ih.1, ih.2, List.length_append, List.length_singleton]
    push_cast
    constructor <;> ring

theorem lineSums_y (ys : List ℝ) : (LineSums.of ys).y = ys.sum := by
  induction ys using List.reverseRecOn with
  | nil => norm_num [LineSums.of]
  | append_singleton ys y ih => rw [lineSums_concat, ih, List.sum_append, List.sum_singleton]

/-- The squared error as a quadratic form in intercept and slope. -/
theorem squaredError_eq (ys : List ℝ) (a b : ℝ) :
    squaredError ys a b = squaredError ys 0 0 + ys.length * a ^ 2 + b ^ 2 * (LineSums.of ys).xx
      + 2 * a * b * (LineSums.of ys).x - 2 * a * (LineSums.of ys).y - 2 * b * (LineSums.of ys).xy := by
  induction ys using List.reverseRecOn with
  | nil => norm_num [squaredError, LineSums.of]
  | append_singleton ys y ih =>
    rw [squaredError_concat, squaredError_concat, lineSums_concat, ih, List.length_append,
      List.length_singleton]
    push_cast
    ring

theorem mean_eq (h : ys ≠ []) : mean ys = ys.sum / ys.length := by
  rw [mean, if_neg (by simpa using h), total_eq_sum]
  rfl

theorem intercept_eq (ys : List ℝ) :
    intercept ys = mean ys - Scalar.slope ys * (ys.length - 1) / 2 := by
  norm_num [intercept]

/-! ## The slope is a quotient -/

theorem spread_eq (ys : List ℝ) :
    spread ys = (ys.length : ℝ) ^ 2 * ((ys.length : ℝ) ^ 2 - 1) / 12 := by
  rw [spread, (lineSums_positions ys).1, (lineSums_positions ys).2]
  ring

theorem spread_pos (h : 2 ≤ ys.length) : 0 < spread ys := by
  have htwo : (2 : ℝ) ≤ ys.length := by exact_mod_cast h
  have hsquare : 0 < (ys.length : ℝ) ^ 2 - 1 := by nlinarith
  rw [spread_eq]
  positivity

theorem slope_eq (h : 2 ≤ ys.length) :
    Scalar.slope ys =
      (ys.length * (LineSums.of ys).xy - (LineSums.of ys).x * (LineSums.of ys).y) / spread ys := by
  have hzero : (0.0 : ℝ) = 0 := by norm_num
  have hne : ¬ (spread ys == (0.0 : ℝ)) = true := by
    show ¬ decide (spread ys = 0.0) = true
    rw [decide_eq_true_iff, hzero]
    exact (spread_pos h).ne'
  rw [Scalar.slope, if_neg (by omega)]
  exact if_neg hne

theorem slope_three (a b c : ℝ) : Scalar.slope [a, b, c] = (c - a) / 2 := by
  have hsums : LineSums.of [a, b, c] = ⟨3, a + b + c, b + 2 * c, 5⟩ := by
    show LineSums.of (((([] : List ℝ) ++ [a]) ++ [b]) ++ [c]) = _
    rw [lineSums_concat, lineSums_concat, lineSums_concat]
    norm_num [LineSums.of]
  have hlength : 2 ≤ [a, b, c].length := by simp
  have hspread : spread [a, b, c] = 6 := by
    rw [spread_eq]
    norm_num
  rw [slope_eq hlength, hspread, hsums]
  norm_num
  ring

/-! ## The best line -/

/-- What the regression line is off adds up to zero, and so it does with the positions as weights. -/
theorem normal_equations (h : 2 ≤ ys.length) :
    (LineSums.of ys).y = ys.length * intercept ys + Scalar.slope ys * (LineSums.of ys).x ∧
      (LineSums.of ys).xy =
        intercept ys * (LineSums.of ys).x + Scalar.slope ys * (LineSums.of ys).xx := by
  have hn : (ys.length : ℝ) ≠ 0 := by exact_mod_cast (by omega : ys.length ≠ 0)
  have hmean : mean ys * ys.length = (LineSums.of ys).y := by
    rw [mean_eq (List.ne_nil_of_length_pos (by omega)), lineSums_y, div_mul_cancel₀ _ hn]
  have hy : (LineSums.of ys).y = ys.length * intercept ys + Scalar.slope ys * (LineSums.of ys).x := by
    rw [intercept_eq, (lineSums_positions ys).1, ← hmean]
    ring
  have hslope := slope_eq h
  rw [eq_div_iff (spread_pos h).ne', spread, hy] at hslope
  refine ⟨hy, mul_left_cancel₀ hn ?_⟩
  linear_combination -hslope

/-- What the squared error of a line is above that of a line that meets the normal equations. -/
theorem squaredError_sub {a b : ℝ} (hy : (LineSums.of ys).y = ys.length * a + b * (LineSums.of ys).x)
    (hxy : (LineSums.of ys).xy = a * (LineSums.of ys).x + b * (LineSums.of ys).xx) (p q : ℝ) :
    ys.length * (squaredError ys p q - squaredError ys a b) =
      (ys.length * (p - a) + (q - b) * (LineSums.of ys).x) ^ 2 + (q - b) ^ 2 * spread ys := by
  rw [squaredError_eq ys p q, squaredError_eq ys a b, hy, hxy, spread]
  ring

/-- **The slope is that of least squares.** What it divides by depends on the number of values alone and is
positive from two values on, so that the slope is always a quotient. Of all lines the one with this slope
that takes the mean of the values at the middle of the positions has the least squared error, and it is
the only one. -/
theorem slope_leastSquares (h : 2 ≤ ys.length) :
    ys.length * (LineSums.of ys).xx - (LineSums.of ys).x * (LineSums.of ys).x =
        (ys.length : ℝ) ^ 2 * ((ys.length : ℝ) ^ 2 - 1) / 12 ∧
      0 < ys.length * (LineSums.of ys).xx - (LineSums.of ys).x * (LineSums.of ys).x ∧
      Scalar.slope ys = (ys.length * (LineSums.of ys).xy - (LineSums.of ys).x * (LineSums.of ys).y) /
        (ys.length * (LineSums.of ys).xx - (LineSums.of ys).x * (LineSums.of ys).x) ∧
      ∀ p q, squaredError ys (intercept ys) (Scalar.slope ys) ≤ squaredError ys p q ∧
        (squaredError ys p q = squaredError ys (intercept ys) (Scalar.slope ys) →
          p = intercept ys ∧ q = Scalar.slope ys) := by
  have hn : (0 : ℝ) < ys.length := by exact_mod_cast (by omega : 0 < ys.length)
  have hpos := spread_pos h
  obtain ⟨hy, hxy⟩ := normal_equations h
  refine ⟨spread_eq ys, hpos, slope_eq h, fun p q => ?_⟩
  have hsub := squaredError_sub hy hxy p q
  constructor
  · refine sub_nonneg.1 (nonneg_of_mul_nonneg_right ?_ hn)
    exact hsub.ge.trans' (by positivity)
  · intro heq
    rw [heq, sub_self, mul_zero] at hsub
    obtain ⟨hfirst, hsecond⟩ :=
      (add_eq_zero_iff_of_nonneg (sq_nonneg _) (mul_nonneg (sq_nonneg _) hpos.le)).1 hsub.symm
    have hq : q - Scalar.slope ys = 0 :=
      (pow_eq_zero_iff two_ne_zero).1 ((mul_eq_zero.1 hsecond).resolve_right hpos.ne')
    rw [hq, zero_mul, add_zero, pow_eq_zero_iff two_ne_zero] at hfirst
    exact ⟨sub_eq_zero.1 ((mul_eq_zero.1 hfirst).resolve_left hn.ne'), sub_eq_zero.1 hq⟩

/-- Three values of which none is on the line. -/
theorem slope_leastSquares_three :
    Scalar.slope ([1, 3, 2] : List ℝ) = 1 / 2 ∧ intercept [1, 3, 2] = 3 / 2 ∧
      ∀ p q, (3 / 2 : ℝ) ≤ squaredError [1, 3, 2] p q := by
  have hsums : LineSums.of ([1, 3, 2] : List ℝ) = ⟨3, 6, 7, 5⟩ := by
    show LineSums.of (((([] : List ℝ) ++ [1]) ++ [3]) ++ [2]) = _
    rw [lineSums_concat, lineSums_concat, lineSums_concat]
    norm_num [LineSums.of]
  have hlength : 2 ≤ ([1, 3, 2] : List ℝ).length := by decide
  obtain ⟨-, -, hquotient, hleast⟩ := slope_leastSquares hlength
  have hslope : Scalar.slope ([1, 3, 2] : List ℝ) = 1 / 2 := by
    rw [hquotient, hsums]
    norm_num
  have hintercept : intercept [1, 3, 2] = 3 / 2 := by
    rw [intercept_eq, hslope, mean_eq (List.cons_ne_nil _ _)]
    norm_num
  have herror : squaredError [1, 3, 2] (3 / 2) (1 / 2) = 3 / 2 := by norm_num [squaredError]
  refine ⟨hslope, hintercept, fun p q => ?_⟩
  have hmin := (hleast p q).1
  rwa [hslope, hintercept, herror] at hmin

end CodeQuality.Exact
