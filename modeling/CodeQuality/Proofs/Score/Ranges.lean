import CodeQuality.Proofs.Exact.Arithmetic
import CodeQuality.Score.Breakdown

/-!
# Ranges of a score

In exact arithmetic, with sound weights and whatever the analyses report: component scores lie between
`0` and `100`, so that the weighted score is at most a hundred times the sum of the weights; penalties
with a cap stay below it, and the bonuses add up to at most `13` (`Breakdown.ofAnalyses_inRange`).
-/

namespace CodeQuality

open Scalar Exact Set

variable {w : Weights ℝ}

/-- The ranges of a score with given weights. -/
structure Breakdown.InRange (w : Weights ℝ) (r : Breakdown ℝ) : Prop where
  overall : r.overall ∈ Icc 0 100
  components : ∀ c, r.components.get c ∈ Icc 0 100
  weighted : r.weighted ∈ Icc 0 (100 * w.sum)
  highComplexity : r.penalties.highComplexity ∈ Icc 0 20
  lowCoverage : r.penalties.lowCoverage ∈ Icc 0 15
  bonuses : r.bonuses.total ∈ Icc 0 13

theorem Analysis.componentScore_mem (c : Category) (a : Analysis ℝ) :
    a.componentScore c ∈ Icc 0 100 := by
  unfold componentScore
  split
  · exact clampScore_mem _
  · exact clampScore_mem _

theorem componentScores_mem (as : List (Analysis ℝ)) (c : Category) :
    (componentScores as).get c ∈ Icc 0 100 := by
  rw [componentScores, ByCategory.get_ofFn]
  apply mean_mem (by norm_num)
  intro x hx
  obtain ⟨a, -, rfl⟩ := List.mem_map.1 hx
  exact a.componentScore_mem c

theorem weightedScore_mem (hw : ∀ c, 0 ≤ w.get c) {v : ByCategory ℝ} (hv : ∀ c, v.get c ∈ Icc 0 100) :
    weightedScore w v ∈ Icc 0 (100 * w.sum) := by
  have hterm (c : Category) : v.get c * w.get c ∈ Icc 0 (100 * w.get c) :=
    ⟨mul_nonneg (hv c).1 (hw c), mul_le_mul_of_nonneg_right (hv c).2 (hw c)⟩
  obtain ⟨htype, htype'⟩ := hterm .typeCheck
  obtain ⟨hlint, hlint'⟩ := hterm .lint
  obtain ⟨hcoverage, hcoverage'⟩ := hterm .coverage
  obtain ⟨hcomplexity, hcomplexity'⟩ := hterm .complexity
  have hsum : w.sum = w.get .typeCheck + w.get .lint + w.get .coverage + w.get .complexity := rfl
  rw [weightedScore, total_eq_sum, hsum]
  simp only [Category.all, List.map_cons, List.map_nil, List.sum_cons, List.sum_nil]
  constructor <;> linarith

theorem larger_zero_nonneg (x : ℝ) : 0 ≤ larger x 0.0 := by
  rw [larger_eq_max]
  norm_num

theorem capped_mem {cap : ℝ} (hcap : 0 ≤ cap) {penalty : ℝ → ℝ} (h : ∀ x, 0 ≤ penalty x)
    (xs : List ℝ) : smaller (total (xs.map penalty)) cap ∈ Icc 0 cap := by
  rw [smaller_eq_min, total_eq_sum]
  refine ⟨le_min (List.sum_nonneg ?_) hcap, min_le_right _ _⟩
  intro y hy
  obtain ⟨x, -, rfl⟩ := List.mem_map.1 hy
  exact h x

theorem highComplexity_mem (as : List (Analysis ℝ)) : (Penalties.of as).highComplexity ∈ Icc 0 20 := by
  have hcap : (20.0 : ℝ) = 20 := by norm_num
  rw [← hcap]
  exact capped_mem (by norm_num) (fun x => mul_nonneg (larger_zero_nonneg _) (by norm_num)) _

theorem lowCoverage_mem (as : List (Analysis ℝ)) : (Penalties.of as).lowCoverage ∈ Icc 0 15 := by
  have hcap : (15.0 : ℝ) = 15 := by norm_num
  rw [← hcap]
  exact capped_mem (by norm_num) (fun x => mul_nonneg (larger_zero_nonneg _) (by norm_num)) _

theorem award_mem {amount : ℝ} (h : 0 ≤ amount) (earned : Bool) : award amount earned ∈ Icc 0 amount := by
  unfold award
  split
  · exact right_mem_Icc.2 h
  · norm_num
    exact h

theorem bonuses_mem (as : List (Analysis ℝ)) : (Bonuses.of as).total ∈ Icc 0 13 := by
  obtain ⟨hstrict, hstrict'⟩ : (Bonuses.of as).strictMode ∈ Icc 0 3.0 := award_mem (by norm_num) _
  obtain ⟨hcovered, hcovered'⟩ : (Bonuses.of as).highCoverage ∈ Icc 0 5.0 := award_mem (by norm_num) _
  obtain ⟨hsimple, hsimple'⟩ : (Bonuses.of as).lowComplexity ∈ Icc 0 3.0 := award_mem (by norm_num) _
  obtain ⟨hclean, hclean'⟩ : (Bonuses.of as).cleanCode ∈ Icc 0 2.0 := award_mem (by norm_num) _
  unfold Bonuses.total
  constructor
  · linarith
  · norm_num at hstrict' hcovered' hsimple' hclean'
    linarith

theorem Breakdown.ofAnalyses_inRange (hw : Weights.fault? w = none) (as : List (Analysis ℝ)) :
    (ofAnalyses w as).InRange w where
  overall := clampScore_mem _
  components := componentScores_mem as
  weighted := weightedScore_mem (fun c => ((fault?_eq_none_iff.1 hw).1 c).1) (componentScores_mem as)
  highComplexity := highComplexity_mem as
  lowCoverage := lowCoverage_mem as
  bonuses := bonuses_mem as

end CodeQuality
