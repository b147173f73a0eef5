import CodeQuality.Proofs.Monitor.Tally
import CodeQuality.Proofs.Score.Ranges
import CodeQuality.Proofs.Wire.Snapshots

/-!
# Ranges of a snapshot

`Monitor.ranges_evaluate`: in exact arithmetic, whatever is in the history, a run reports a score and
stores a snapshot whose numbers are in their ranges and have two decimals, as long as the measured files
have an index between `0` and `100`.

Each record of a snapshot is shown to be in range as it is computed and once more when it is rounded:
rounding is monotone, and the ends of all ranges have two decimals. Of the history nothing is used, since
what a trend says is capped, floored or moved into a band at its end.
-/

namespace CodeQuality

open Scalar Exact Set

/-! ## Debt -/

structure Debt.InRange (d : Debt ℝ) : Prop where
  hours : 0 ≤ d.hours
  ratio : 0 ≤ d.ratio
  /-- Code counts as at least a thousand lines. -/
  ratio_le : d.ratio ≤ d.hours
  density : 0 ≤ d.density
  interest : d.interest ∈ Icc 0 0.1
  payback : 0 ≤ d.payback

theorem Issue.hours_nonneg (issue : Issue) : (0 : ℝ) ≤ issue.hours := by
  have hseverity : (0 : ℝ) ≤ issue.severity.hours := by
    cases issue.severity <;> norm_num [Severity.hours]
  have hrule : (0 : ℝ) ≤ ruleMultiplier issue.rule := by
    cases issue.rule with
    | none => norm_num [ruleMultiplier]
    | some rule =>
      simp only [ruleMultiplier]
      split_ifs <;> norm_num
  exact mul_nonneg hseverity hrule

theorem totalHours_nonneg (issues : List Issue) : (0 : ℝ) ≤ totalHours issues := by
  rw [totalHours_eq_sum]
  apply List.sum_nonneg
  intro x hx
  obtain ⟨issue, -, rfl⟩ := List.mem_map.1 hx
  exact issue.hours_nonneg

theorem Debt.interestOf_mem (issues : List Issue) : (interestOf issues : ℝ) ∈ Icc 0 0.1 := by
  have htenth : (0.10 : ℝ) = 0.1 := by norm_num
  unfold interestOf
  split
  · norm_num
  · rw [smaller_eq_min, htenth]
    refine ⟨le_min (mul_nonneg (div_nonneg ?_ ?_) (by norm_num)) (by norm_num), min_le_right _ _⟩
    · exact Nat.cast_nonneg _
    · exact Nat.cast_nonneg _

theorem Debt.ofIssues_inRange (team : ℕ) (issues : List Issue) (lines : ℕ) (trend : DebtTrend) :
    (ofIssues team issues lines trend : Debt ℝ).InRange := by
  have hhours : (0 : ℝ) ≤ totalHours issues := totalHours_nonneg issues
  have hthousands : (1 : ℝ) ≤ larger (ofNat lines / 1000.0) 1.0 := by
    rw [thousands_eq]
    exact le_max_right _ _
  have hthousands' : (0 : ℝ) ≤ larger (ofNat lines / 1000.0) 1.0 := by linarith
  exact {
    hours := hhours
    ratio := div_nonneg hhours hthousands'
    ratio_le := div_le_self hhours hthousands
    density := div_nonneg (Nat.cast_nonneg _) hthousands'
    interest := interestOf_mem issues
    payback := div_nonneg hhours (mul_nonneg (Nat.cast_nonneg _) (by norm_num)) }

theorem Debt.InRange.rounded {d : Debt ℝ} (h : d.InRange) : d.rounded.InRange where
  hours := hundredths_nonneg h.hours
  ratio := hundredths_nonneg h.ratio
  ratio_le := hundredths_mono h.ratio_le
  density := hundredths_nonneg h.density
  interest := by
    have htenth : hundredths (0.1 : ℝ) = 0.1 := by
      have hten := hundredths_intCast_div 10
      norm_num at hten ⊢
      exact hten
    exact hundredths_mem hundredths_zero htenth h.interest
  payback := hundredths_nonneg h.payback

/-! ## Trend -/

structure Trend.InRange (t : Trend ℝ) : Prop where
  volatility : 0 ≤ t.volatility
  improvementRate : t.improvementRate ∈ Icc 0 100
  regressionRisk : t.regressionRisk ∈ Icc 0 100
  stability : t.stability ∈ Icc 0 100
  predicted : t.predicted ∈ Icc 0 100
  projections : ∀ p ∈ t.projections, p.score ∈ Icc 0 100 ∧ p.confidence ∈ Icc 0 100

theorem improvementRate_mem (scores : List ℝ) : improvementRate scores ∈ Icc 0 100 := by
  unfold improvementRate
  split
  · norm_num
  next hlength =>
    have hpos : (0 : ℝ) < (scores.length - 1 : ℕ) := by
      exact_mod_cast (by omega : 0 < scores.length - 1)
    have hrises : (rises scores : ℝ) ≤ (scores.length - 1 : ℕ) := by exact_mod_cast rises_le scores
    have hshare : (rises scores : ℝ) / (scores.length - 1 : ℕ) ∈ Icc 0 1 :=
      ⟨div_nonneg (Nat.cast_nonneg _) hpos.le, (div_le_one₀ hpos).2 hrises⟩
    show (rises scores : ℝ) / (scores.length - 1 : ℕ) * 100.0 ∈ Icc 0 100
    obtain ⟨hlo, hhi⟩ := hshare
    constructor
    · linarith
    · linarith

theorem regressionRisk_mem (velocity : ℝ) {volatility : ℝ} (h : 0 ≤ volatility) :
    regressionRisk velocity volatility ∈ Icc 0 100 := by
  have hhundred : (100.0 : ℝ) = 100 := by norm_num
  have hdecline : 0 ≤ if velocity < 0.0 then magnitude velocity * 20.0 else 0.0 := by
    split
    · rw [magnitude_eq_abs]
      positivity
    · norm_num
  have hvolatility : 0 ≤ min (volatility * 10.0) 100.0 := le_min (by positivity) (by norm_num)
  unfold regressionRisk
  rw [smaller_eq_min, smaller_eq_min, hhundred] at *
  exact ⟨le_min (add_nonneg hvolatility hdecline) (by norm_num), min_le_right _ _⟩

theorem rest_mem {loss : ℝ} (h : 0 ≤ loss) : larger (100.0 - loss) 0.0 ∈ Icc 0 100 := by
  have hhundred : (100.0 : ℝ) = 100 := by norm_num
  have hzero : (0.0 : ℝ) = 0 := by norm_num
  rw [larger_eq_max, hhundred, hzero]
  exact ⟨le_max_right _ _, max_le (sub_le_self 100 h) (by norm_num)⟩

theorem Trend.ofRecent_inRange (scores : List ℝ) : (ofRecent scores).InRange := by
  have hvolatility := deviation_nonneg scores
  exact {
    volatility := hvolatility
    improvementRate := improvementRate_mem scores
    regressionRisk := regressionRisk_mem _ hvolatility
    stability := rest_mem (mul_nonneg hvolatility (by norm_num))
    predicted := clampScore_mem _
    projections := by
      intro p hp
      obtain ⟨period, -, rfl⟩ := List.mem_map.1 hp
      exact ⟨clampScore_mem _, rest_mem (mul_nonneg hvolatility (by norm_num))⟩ }

theorem Trend.insufficient_inRange (last : Option ℝ) : (insufficient last).InRange where
  volatility := by norm_num [insufficient]
  improvementRate := by norm_num [insufficient]
  regressionRisk := by norm_num [insufficient]
  stability := by norm_num [insufficient]
  predicted := by
    cases last with
    | none => norm_num [insufficient]
    | some score => exact clampScore_mem score
  projections := nofun

theorem Trend.ofScores_inRange (window : ℕ) (scores : List ℝ) : (ofScores window scores).InRange := by
  unfold ofScores
  split
  · exact insufficient_inRange _
  · exact ofRecent_inRange _

theorem Trend.InRange.rounded {t : Trend ℝ} (h : t.InRange) : t.rounded.InRange where
  volatility := hundredths_nonneg h.volatility
  improvementRate := hundredths_percent h.improvementRate
  regressionRisk := hundredths_percent h.regressionRisk
  stability := hundredths_percent h.stability
  predicted := hundredths_percent h.predicted
  projections := by
    intro p hp
    obtain ⟨projection, hprojection, rfl⟩ := List.mem_map.1 hp
    obtain ⟨hscore, hconfidence⟩ := h.projections projection hprojection
    exact ⟨hundredths_percent hscore, hundredths_percent hconfidence⟩

/-! ## Forecast -/

structure Forecast.InRange (f : Forecast ℝ) : Prop where
  score : f.score ∈ Icc 0 100
  confidence : f.confidence ∈ Icc 20 100
  effort : 0 ≤ f.effort

theorem Forecast.of_inRange (target score : ℝ) {trend : Trend ℝ} {debt : Debt ℝ} (htrend : trend.InRange)
    (hdebt : debt.InRange) : (Forecast.of target score trend debt).InRange where
  score := clampScore_mem _
  confidence := by
    obtain ⟨hlo, -⟩ := htrend.stability
    show smaller (trend.stability * 0.8 + 20.0) 100.0 ∈ Icc 20 100
    rw [smaller_eq_min]
    exact ⟨le_min (by linarith) (by norm_num), (min_le_right _ _).trans (by norm_num)⟩
  effort := mul_nonneg hdebt.hours (by norm_num)

theorem Forecast.InRange.rounded {f : Forecast ℝ} (h : f.InRange) : f.rounded.InRange where
  score := hundredths_percent h.score
  confidence := hundredths_mem (hundredths_ofNat 20) (hundredths_ofNat 100) h.confidence
  effort := hundredths_nonneg h.effort

/-! ## Maintainability -/

theorem Profile.index_mem (as : List (Analysis ℝ)) {files : List (FileMeasurement ℝ)}
    (h : ∀ f ∈ files, f.maintainability ∈ Icc 0 100) : (Profile.of as files).index ∈ Icc 0 100 := by
  unfold Profile.of
  split
  · exact clampScore_mem _
  · apply mean_mem (by norm_num)
    exact List.forall_mem_map.2 h

/-! ## Snapshots -/

structure Snapshot.InRange (s : Snapshot ℝ) : Prop where
  score : s.score ∈ Icc 0 100
  index : s.profile.index ∈ Icc 0 100
  debt : s.debt.InRange
  trend : s.trend.InRange
  forecast : s.forecast.InRange

theorem Snapshot.InRange.rounded {s : Snapshot ℝ} (h : s.InRange) : s.rounded.InRange where
  score := hundredths_percent h.score
  index := hundredths_percent h.index
  debt := h.debt.rounded
  trend := h.trend.rounded
  forecast := h.forecast.rounded

namespace Monitor

variable {m m' : Monitor ℝ} {as : List (Analysis ℝ)} {files : List (FileMeasurement ℝ)} {now : Instant}
  {report : Report ℝ}

theorem observe_inRange (m : Monitor ℝ) (as : List (Analysis ℝ)) (now : Instant)
    {breakdown : Breakdown ℝ} (hfiles : ∀ f ∈ files, f.maintainability ∈ Icc 0 100)
    (hscore : breakdown.overall ∈ Icc 0 100) : (m.observe as files now breakdown).InRange where
  score := hscore
  index := Profile.index_mem as hfiles
  debt := Debt.ofIssues_inRange ..
  trend := Trend.ofScores_inRange ..
  forecast := Forecast.of_inRange _ _ (Trend.ofScores_inRange ..) (Debt.ofIssues_inRange ..)

/-- **Every report stays in its ranges.** In exact arithmetic, for sound weights and any history: the
score and the stored snapshot of a run are in their ranges, if the indexes of the measured files are, and
all numbers of the snapshot have two decimals. -/
theorem ranges_evaluate (hfiles : ∀ f ∈ files, f.maintainability ∈ Icc 0 100)
    (h : m.evaluate as files now = .ok (report, m')) :
    report.breakdown.InRange m.config.weights ∧ report.snapshot.InRange ∧
      ∀ x ∈ report.snapshot.numbers, hundredths x = x := by
  obtain ⟨hbreakdown, hsnapshot⟩ := evaluate_eq_ok h
  have hrange : report.breakdown.InRange m.config.weights := by
    rw [hbreakdown]
    exact Breakdown.ofAnalyses_inRange (Option.isNone_iff_eq_none.1 m.weights_sound) _
  refine ⟨hrange, ?_, ?_⟩
  · rw [hsnapshot]
    exact (m.observe_inRange _ now hfiles hrange.overall).rounded
  · rw [hsnapshot, Snapshot.numbers_rounded, List.forall_mem_map]
    intro x hx
    exact hundredths_hundredths x

/-- A snapshot with a given score, and hardly a number of it in range. -/
noncomputable def outlier (score : ℝ) : Snapshot ℝ :=
  { score
    debt := ⟨-3, 7, -1, 5, -4, .stable⟩
    profile := ⟨-200, 0, 0, 0, 0, .f⟩
    trend := .insufficient none
    health := ⟨0, 0, 0, 0, 0, 0, .f⟩
    forecast := ⟨300, -20, none, -1, [], []⟩
    instant := ⟨0, 0⟩
    version := "" }

/-- A run after seeds of five thousand and of less than nothing. -/
theorem ranges_evaluate_outliers :
    ∃ m report m', resume .standard [outlier 5000, outlier (-1000)] = .ok m ∧
      m.evaluate (unmarkedAndLint [unusedName] []) [branchyFile] ⟨1, 0⟩ = .ok (report, m') ∧
      report.breakdown.InRange .standard ∧ report.snapshot.InRange ∧
      ∀ x ∈ report.snapshot.numbers, hundredths x = x := by
  obtain ⟨m, hm⟩ := exists_resume .standard Exact.fault?_standard [outlier 5000, outlier (-1000)]
  obtain ⟨hconfig, -⟩ := resume_eq_ok hm
  obtain ⟨report, m', h⟩ := exists_evaluate_branchy hconfig ⟨1, 0⟩
  have hindex : ∀ f ∈ [branchyFile], f.maintainability ∈ Icc 0 100 := by
    norm_num [branchyFile]
  refine ⟨m, report, m', hm, h, ?_⟩
  have hrange := ranges_evaluate hindex h
  rwa [hconfig] at hrange

end Monitor

end CodeQuality
