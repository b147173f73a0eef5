import CodeQuality.Proofs.Exact.LeastSquares
import CodeQuality.Proofs.Monitor.Likeness

/-!
# What a trend says hangs together

`Trend.ofScores_coherent`: in exact arithmetic, the numbers of a trend fit each other for every series of
scores and every window. Fewer than three scores have the neutral trend. Otherwise only the last scores count,
as many as the window holds and three at least: they vary unless all of them are equal, the projections start
at the predicted score and go the way that the velocity points, and a trend has no other direction than its
velocity.

All numbers come from two, the slope of the scores and their deviation. The deviation is a sum of squares
(`Exact.deviation_eq_zero_iff`); the projections are moved into a band, which keeps their order
(`Exact.clampScore_mono`), and the confidence loses half of what the stability loses
(`stabilityIndex_le_confidence`).
-/

namespace CodeQuality

open Exact
open Scalar hiding slope

/-! ## Deviations -/

theorem Exact.mean_of_equal {xs : List ℝ} {x : ℝ} (hne : xs ≠ []) (h : ∀ y ∈ xs, y = x) :
    mean xs = x := by
  have hlength : (xs.length : ℝ) ≠ 0 := by simpa using hne
  rw [mean_eq hne, List.sum_eq_card_nsmul xs x h, nsmul_eq_mul, mul_div_cancel_left₀ x hlength]

/-- Values do not vary only if all of them are equal. -/
theorem Exact.deviation_eq_zero_iff (xs : List ℝ) :
    deviation xs = 0 ↔ ∀ x ∈ xs, ∀ y ∈ xs, x = y := by
  by_cases hempty : xs = []
  · subst hempty
    norm_num [deviation]
  have hlength : (0 : ℝ) < xs.length := by exact_mod_cast List.length_pos_iff.2 hempty
  have hsquare : ∀ z ∈ xs.map fun x => (x - mean xs) * (x - mean xs), 0 ≤ z := by
    intro z hz
    obtain ⟨x, -, rfl⟩ := List.mem_map.1 hz
    exact mul_self_nonneg _
  have hdeviation : deviation xs =
      Real.sqrt ((xs.map fun x => (x - mean xs) * (x - mean xs)).sum / xs.length) := by
    rw [deviation, if_neg (by simpa using hempty), ← total_eq_sum]
    rfl
  rw [hdeviation, Real.sqrt_eq_zero (div_nonneg (List.sum_nonneg hsquare) hlength.le),
    div_eq_zero_iff, or_iff_left hlength.ne']
  constructor
  · intro hsum
    have hmean : ∀ x ∈ xs, x = mean xs := by
      intro x hx
      have hzero := List.all_zero_of_le_zero_le_of_sum_eq_zero hsquare hsum
        (List.mem_map_of_mem hx)
      exact sub_eq_zero.1 (mul_self_eq_zero.1 hzero)
    intro x hx y hy
    rw [hmean x hx, ← hmean y hy]
  · intro hequal
    apply List.sum_eq_zero
    intro z hz
    obtain ⟨x, hx, rfl⟩ := List.mem_map.1 hz
    rw [mean_of_equal hempty fun y hy => hequal y hy x hx, sub_self, mul_zero]

/-! ## The numbers of a trend -/

theorem stabilityIndex_le_confidence {volatility : ℝ} (h : 0 ≤ volatility) :
    stabilityIndex volatility ≤ projectionConfidence volatility := by
  rw [stabilityIndex, projectionConfidence, larger_eq_max, larger_eq_max]
  apply max_le_max_right
  norm_num
  linarith

namespace Direction

variable {velocity : ℝ}

theorem pos_of_improving (h : ofVelocity velocity = improving) : 0 < velocity := by
  unfold ofVelocity at h
  by_cases hup : 0.5 < velocity
  · norm_num at hup
    linarith
  · by_cases hdown : velocity < -0.5
    · simp [hup, hdown] at h
    · simp [hup, hdown] at h

theorem neg_of_declining (h : ofVelocity velocity = declining) : velocity < 0 := by
  unfold ofVelocity at h
  by_cases hup : 0.5 < velocity
  · simp [hup] at h
  · by_cases hdown : velocity < -0.5
    · norm_num at hdown
      linarith
    · simp [hup, hdown] at h

end Direction

namespace Trend

/-- The trend of scores that have none. -/
structure Neutral (t : Trend ℝ) : Prop where
  direction : t.direction = .stable
  velocity : t.velocity = 0
  volatility : t.volatility = 0
  improvementRate : t.improvementRate = 0
  regressionRisk : t.regressionRisk = 0
  stability : t.stability = 100
  projections : t.projections = []

/-- The numbers of a trend fit each other and the scores that count. -/
structure Coherent (scores : List ℝ) (t : Trend ℝ) : Prop where
  volatility : t.volatility = 0 ↔ ∀ x ∈ scores, ∀ y ∈ scores, x = y
  periods : t.projections.map (·.period) = [1, 2, 3, 4, 5]
  confidence : ∃ c, t.stability ≤ c ∧ ∀ p ∈ t.projections, p.confidence = c
  first : (t.projections.map (·.score)).head? = some t.predicted
  rising : 0 ≤ t.velocity → (t.projections.map (·.score)).Pairwise (· ≤ ·)
  falling : t.velocity ≤ 0 → (t.projections.map (·.score)).Pairwise (· ≥ ·)
  improving : t.direction = .improving → 0 < t.velocity
  declining : t.direction = .declining → t.velocity < 0

theorem insufficient_neutral (last : Option ℝ) : Neutral (insufficient last) := by
  constructor <;> norm_num [insufficient]

theorem scores_ofRecent (scores : List ℝ) :
    (ofRecent scores).projections.map (·.score) =
      periods.map fun period : ℕ =>
        clampScore (scores.getLast?.getD 0.0 + Scalar.slope scores * (period : ℝ)) := rfl

theorem periods_ascending : periods.Pairwise (· ≤ ·) := by decide

theorem pairwise_scores {r : ℝ → ℝ → Prop} (scores : List ℝ)
    (hr : ∀ {x y}, r x y → r (clampScore x) (clampScore y))
    (hstep : ∀ {k l : ℝ}, k ≤ l → r (scores.getLast?.getD 0.0 + Scalar.slope scores * k)
      (scores.getLast?.getD 0.0 + Scalar.slope scores * l)) :
    ((ofRecent scores).projections.map (·.score)).Pairwise r := by
  rw [scores_ofRecent, List.pairwise_map]
  refine periods_ascending.imp ?_
  intro k l hkl
  have hcast : (k : ℝ) ≤ l := by exact_mod_cast hkl
  exact hr (hstep hcast)

theorem ofRecent_coherent (scores : List ℝ) : Coherent scores (ofRecent scores) where
  volatility := deviation_eq_zero_iff scores
  periods := rfl
  confidence := by
    refine ⟨projectionConfidence (deviation scores), ?_, ?_⟩
    · exact stabilityIndex_le_confidence (deviation_nonneg scores)
    · intro p hp
      obtain ⟨period, -, rfl⟩ := List.mem_map.1 hp
      rfl
  first := by
    rw [scores_ofRecent, periods, List.map_cons, List.head?_cons, Nat.cast_one, mul_one]
    rfl
  rising := by
    intro hvelocity
    refine pairwise_scores scores clampScore_mono ?_
    intro k l hkl
    exact add_le_add_right (mul_le_mul_of_nonneg_left hkl hvelocity) _
  falling := by
    intro hvelocity
    refine pairwise_scores scores clampScore_mono ?_
    intro k l hkl
    exact add_le_add_right (mul_le_mul_of_nonpos_left hkl hvelocity) _
  improving := Direction.pos_of_improving
  declining := Direction.neg_of_declining

/-- **The numbers of a trend fit each other.** Fewer than three scores have the neutral trend. Otherwise the
volatility is zero only for equal scores, five weeks are projected with one confidence, which is no lower than
the stability, from the predicted score on and in the direction of the velocity, and the direction has the
sign of the velocity. Only the last scores count: two series that end alike have the same trend. -/
theorem ofScores_coherent (window : ℕ) (scores : List ℝ) :
    (scores.length < 3 → Neutral (ofScores window scores)) ∧
      (3 ≤ scores.length → Coherent (scores.rtake (max window 3)) (ofScores window scores)) ∧
      ∀ scores' : List ℝ, scores'.rtake (max window 3) = scores.rtake (max window 3) →
        ofScores window scores' = ofScores window scores := by
  refine ⟨?_, ?_, ?_⟩
  · intro hfew
    rw [ofScores, if_pos (by exact hfew)]
    exact insufficient_neutral _
  · intro hmany
    rw [ofScores, if_neg (by exact not_lt.2 hmany)]
    exact ofRecent_coherent _
  · intro scores' halike
    have hlatest : latest (max window leastScores) scores' =
        latest (max window leastScores) scores := halike
    rw [← ofScores_latest le_rfl scores', hlatest, ofScores_latest le_rfl]

/-- A window of two looks at three scores: those of falling ones fall, whatever was before. -/
theorem ofScores_coherent_falling :
    3 ≤ ([0, 90, 80, 70] : List ℝ).length ∧ (ofScores 2 [0, 90, 80, 70] : Trend ℝ).velocity = -10 ∧
      Coherent [90, 80, 70] (ofScores 2 [0, 90, 80, 70]) ∧
      (ofScores 2 [50, 90, 80, 70] : Trend ℝ) = ofScores 2 [0, 90, 80, 70] ∧
      ([0, 90] : List ℝ).length < 3 ∧ Neutral (ofScores 2 [0, 90]) := by
  have hmany : 3 ≤ ([0, 90, 80, 70] : List ℝ).length := by decide
  have hfew : ([0, 90] : List ℝ).length < 3 := by decide
  have hvelocity : (ofScores 2 [0, 90, 80, 70] : Trend ℝ).velocity = Scalar.slope [90, 80, 70] := rfl
  obtain ⟨-, hcoherent, halike⟩ := ofScores_coherent 2 [0, 90, 80, 70]
  refine ⟨hmany, ?_, hcoherent hmany, halike [50, 90, 80, 70] rfl, hfew, ?_⟩
  · rw [hvelocity, slope_three]
    norm_num
  · exact (ofScores_coherent 2 [0, 90]).1 hfew

end Trend

end CodeQuality
