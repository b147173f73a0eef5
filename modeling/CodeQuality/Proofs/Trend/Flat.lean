import CodeQuality.Forecast
import CodeQuality.Number.Binary64
import CodeQuality.Proofs.Binary64.Defined
import CodeQuality.Proofs.Binary64.EqualScores

/-!
# Flat series

`Trend.flat_scores`: what the trend of a series says if all scores that count are the same number. In exact
arithmetic its velocity would be zero, the projections would repeat the score, and no target would ever be
reached. With rounded sums the velocity is tiny, and the direction and the improvement rate are those of a
flat series; but the projections are off the score by a few velocities, and any target has a time as soon as
the velocity happens to be positive. Scores with few binary digits, whole ones for instance, have a velocity
of zero in every window of a usual length.

The velocity is a slope (`Binary64.slope_le`, `Binary64.slope_eq_zero`). No step of the series goes up
(`rises_eq_zero`), and each sum with the last score is rounded only as far as the summand
(`Binary64.Nearest.error_le_summand`).
-/

namespace CodeQuality

open Binary64
open Scalar hiding slope

variable {r s v : ℚ} {x : Float}

/-! ## Sums near a score -/

theorem abs_band_sub_le (h0 : 0 ≤ r) (h100 : r ≤ 100) (s : ℚ) :
    |max 0 (min s 100) - r| ≤ |s - r| := by
  calc |max 0 (min s 100) - r| = |max (min s 100) 0 - max (min r 100) 0| := by
        rw [min_eq_left h100, max_eq_left h0, max_comm]
    _ ≤ |min s 100 - min r 100| := abs_max_sub_max_le_abs _ _ _
    _ ≤ |s - r| := (abs_min_sub_min_le_max s 100 r 100).trans (by simp)

theorem denotes_projected {y : Float} (hx : Denotes x r) (hy : Denotes y s) (h0 : 0 ≤ r)
    (h100 : r ≤ 100) (hs : |s| ≤ 1) :
    ∃ z, Denotes (clampScore (x + y)) z ∧ |z - r| ≤ 2 * |s| := by
  have hsum : |r + s| ≤ 2 ^ 7 := by
    refine (abs_add_le r s).trans ?_
    rw [abs_of_nonneg h0]
    linarith
  obtain ⟨z, hz, hnearest⟩ := (add_roundsTo hx hy).denotes (le_two_zpow_of_le (by norm_num) hsum)
  exact ⟨_, hz.clampScore, (abs_band_sub_le h0 h100 z).trans (hnearest.error_le_summand hx.onGrid)⟩

/-! ## Steps -/

theorem rises_eq_zero : ∀ {scores : List Float}, (∀ x ∈ scores, Denotes x r) → rises scores = 0
  | [], _ => rfl
  | [_], _ => rfl
  | x :: y :: rest, h => by
    have hxy : ¬ x < y := by
      rw [(h x (by simp)).lt_iff (h y (by simp))]
      exact lt_irrefl r
    rw [rises, if_neg hxy, rises_eq_zero fun z hz => h z (List.mem_cons_of_mem x hz)]

theorem improvementRate_eq_zero {scores : List Float} (hlength : scores.length ≤ 2 ^ 53)
    (h : ∀ x ∈ scores, Denotes x r) : Denotes (improvementRate scores) 0 := by
  unfold improvementRate
  split
  · exact denotes_zero
  · have hzero : Denotes (Float.ofNat 0) ((0 : ℕ) : ℚ) := denotes_ofNat (by norm_num)
    have hsteps : ((scores.length - 1 : ℕ) : ℚ) ≠ 0 := by
      rw [Nat.cast_ne_zero]
      omega
    have hrate := div_roundsTo hzero (denotes_ofNat (n := scores.length - 1) (by omega)) hsteps
    rw [Nat.cast_zero, zero_div] at hrate
    have hpercent := mul_roundsTo (hrate.denotes_natCast (n := 0) (by norm_num)) denotes_hundred
    rw [Nat.cast_zero, zero_mul] at hpercent
    rw [rises_eq_zero h]
    exact_mod_cast hpercent.denotes_natCast (n := 0) (by norm_num)

theorem Direction.ofVelocity_stable (hx : Denotes x v) (hv : |v| ≤ 1 / 2) :
    Direction.ofVelocity x = .stable := by
  have hneg : Denotes (-0.5) (-(1 / 2)) := neg_denotes denotes_half
  rw [ofVelocity, if_neg, if_neg]
  · rw [hx.lt_iff hneg]
    exact not_lt.2 (neg_le_of_abs_le hv)
  · rw [denotes_half.lt_iff hx]
    exact not_lt.2 (le_of_abs_le hv)

/-! ## The trend -/

namespace Trend

theorem le_of_mem_periods {period : ℕ} (h : period ∈ periods) : period ≤ 5 := by
  revert period
  decide

theorem denotes_week {y : Float} {period : ℕ} (hx : Denotes x r) (hy : Denotes y v) (h0 : 0 ≤ r)
    (h100 : r ≤ 100) (hv : |v| ≤ 1 / 10) (hperiod : period ≤ 5) :
    ∃ z, Denotes (clampScore (x + y * Float.ofNat period)) z ∧ |z - r| ≤ 4 * period * |v| := by
  have hweeks : (period : ℚ) ≤ 5 := by exact_mod_cast hperiod
  have hexact : |v * period| = period * |v| := by rw [abs_mul, Nat.abs_cast, mul_comm]
  have hsmall : |v * period| ≤ 1 / 2 := by
    calc |v * period| = period * |v| := hexact
      _ ≤ 5 * (1 / 10) := mul_le_mul hweeks hv (abs_nonneg v) (by norm_num)
      _ = 1 / 2 := by norm_num
  obtain ⟨s, hs, hnearest⟩ := (mul_roundsTo hy (denotes_ofNat (n := period) (by omega))).denotes
    (le_two_zpow_of_le (k := 0) (by norm_num) (by linarith))
  have hdouble := hnearest.abs_le_two_mul
  obtain ⟨z, hz, hle⟩ := denotes_projected hx hs h0 h100 (by linarith)
  exact ⟨z, hz, by linarith⟩

section flat

variable {scores : List Float}

theorem denotes_last (hne : scores ≠ []) (h : ∀ x ∈ scores, Denotes x r) :
    Denotes (scores.getLast?.getD 0.0) r := by
  rw [List.getLast?_eq_some_getLast hne]
  exact h _ (List.getLast_mem hne)

/-- **A flat series has next to no trend.** If the scores that count are all `r`, and no more than `2 ^ 40`,
the series has no direction and none of its steps goes up. Its velocity is a number that is tiny in
comparison with `r`, and no score that is predicted is farther off `r` than that velocity explains. A target
has no time exactly if the velocity is not positive. The velocity is zero if `r` has few enough binary
digits for the number of scores. -/
theorem flat_scores {window : ℕ} (h0 : 0 ≤ r) (h100 : r ≤ 100) (hleast : leastScores ≤ scores.length)
    (hlength : (recent window scores).length ≤ 2 ^ 40) (h : ∀ x ∈ recent window scores, Denotes x r) :
    ∃ v, Denotes (ofScores window scores).velocity v ∧ |v| ≤ r * 2 ^ (-44 : ℤ) ∧
      (ofScores window scores).direction = .stable ∧
      Denotes (ofScores window scores).improvementRate 0 ∧
      (∃ z, Denotes (ofScores window scores).predicted z ∧ |z - r| ≤ 2 * |v|) ∧
      (ofScores window scores).projections.map (·.period) = periods ∧
      (∀ p ∈ (ofScores window scores).projections,
        ∃ z, Denotes p.score z ∧ |z - r| ≤ 4 * p.period * |v|) ∧
      (∀ target score debt,
        (Forecast.of target score (ofScores window scores) debt).timeToTarget = none ↔ v ≤ 0) ∧
      (∀ (m : ℕ) (q : ℤ), r = m * 2 ^ q → -1074 ≤ q → m * (recent window scores).length ^ 3 ≤ 2 ^ 54 →
        v = 0) := by
  have hrecent : ofScores window scores = ofRecent (recent window scores) := by
    rw [ofScores, if_neg (by omega)]
  have hthree : leastScores ≤ (recent window scores).length := by
    rw [recent, length_latest]
    exact le_min hleast (le_max_right _ _)
  rw [hrecent]
  -- what is older than the window is of no importance from here on
  generalize recent window scores = last at *
  have htwo : 2 ≤ last.length := hthree.trans' (by decide)
  have hend := denotes_last (List.ne_nil_of_length_pos (by omega)) h
  obtain ⟨v, hv, hle⟩ := slope_le h0 h100 htwo hlength h
  have hsmall : |v| ≤ 1 / 10 := by
    refine hle.trans ?_
    norm_num
    linarith
  refine ⟨v, hv, hle, Direction.ofVelocity_stable hv (by linarith),
    improvementRate_eq_zero (by omega) h, denotes_projected hend hv h0 h100 (by linarith), rfl,
    fun p hp => ?_, fun target score debt => ?_, fun m q hr hq hsize => ?_⟩
  · obtain ⟨period, hperiod, rfl⟩ := List.mem_map.1 hp
    exact denotes_week hend hv h0 h100 hsmall (le_of_mem_periods hperiod)
  · rw [← Option.not_isSome_iff_eq_none, Forecast.isSome_timeToTarget]
    exact (denotes_zero.lt_iff hv).not.trans not_lt
  · exact hv.unique (slope_eq_zero hr hq h100 hsize htwo hlength h)

end flat

/-- No debt. -/
def noDebt : Debt Float :=
  { hours := 0.0, ratio := 0.0, density := 0.0, interest := 0.0, payback := 0.0, trend := .stable }

/-- A score of `50`, flat for as long as the window, and lower before. -/
theorem flat_scores_fifty :
    (ofScores 10 (List.replicate 20 0.0 ++ List.replicate 10 50.0)).direction = .stable ∧
      Denotes (ofScores 10 (List.replicate 20 0.0 ++ List.replicate 10 50.0)).velocity 0 ∧
      (Forecast.of 90.0 50.0 (ofScores 10 (List.replicate 20 0.0 ++ List.replicate 10 50.0))
        noDebt).timeToTarget = none := by
  have hrecent : recent 10 (List.replicate 20 (0.0 : Float) ++ List.replicate 10 50.0) =
      List.replicate 10 50.0 := rfl
  have hlast : ∀ x ∈ recent 10 (List.replicate 20 (0.0 : Float) ++ List.replicate 10 50.0),
      Denotes x 50 := by
    rw [hrecent]
    intro x hx
    rw [List.eq_of_mem_replicate hx]
    exact denotes_literal (n := 50) (by norm_num)
  obtain ⟨v, hv, -, hdirection, -, -, -, -, htime, hzero⟩ :=
    flat_scores (by norm_num) (by norm_num) (by decide) (by rw [hrecent]; decide) hlast
  have hv0 : v = 0 := hzero 50 0 (by norm_num) (by norm_num) (by rw [hrecent]; norm_num)
  exact ⟨hdirection, hv0 ▸ hv, (htime _ _ _).2 hv0.le⟩

/-- A score with two decimals that is flat may be projected to rise, and to reach a target. -/
theorem rising_flat_scores :
    0.0 < (ofScores 10 (List.replicate 5 60.14)).velocity ∧
      (∀ p ∈ (ofScores 10 (List.replicate 5 60.14)).projections, (60.14 : Float) < p.score) ∧
      (Forecast.of 90.0 60.14 (ofScores 10 (List.replicate 5 60.14)) noDebt).timeToTarget.isSome := by
  decide +kernel

end Trend

end CodeQuality
