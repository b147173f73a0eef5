import CodeQuality.Proofs.Binary64.Statistics
import CodeQuality.Proofs.Score.Bounds
import CodeQuality.Proofs.Wire.Snapshots

/-!
# Figures of a snapshot

How large the numbers of a snapshot can be before they are rounded. Those of its debt and its trend
are far from overflow, since they are made of counts and of scores; that a velocity is not tiny keeps
the time to the target bounded as well. The means of reported metrics have no bound, and neither have
measured files of which the coverage is no number.
-/

namespace CodeQuality

open Scalar Binary64

/-! ## Debt -/

namespace Debt

variable {team lines : ℕ} {issues : List Issue} {trend : DebtTrend}

theorem within_hours (issue : Issue) : Within (issue.hours : Float) 20 := by
  have hseverity : Within (issue.severity.hours : Float) 10 := by
    cases issue.severity <;> exact within_literal (by decide +kernel)
  have hrule : Within (ruleMultiplier issue.rule : Float) 10 := by
    unfold ruleMultiplier
    split
    · exact within_literal (by decide +kernel)
    · split_ifs <;> exact within_literal (by decide +kernel)
  exact hseverity.mul hrule (by norm_num)

theorem within_totalHours (issues : List Issue) : Within (totalHours issues : Float) 75 :=
  Within.foldl_add within_zero (fun issue _ => within_hours issue) (by norm_num)

theorem one_le_thousands (hlines : lines < UInt64.size) :
    ∃ s, Denotes (larger (Float.ofNat lines / 1000.0) 1.0) s ∧ 1 ≤ s := by
  have hthousand : Denotes 1000.0 1000 := denotes_literal (n := 1000) (by norm_num)
  obtain ⟨r, hr, -⟩ := (within_ofNat (p := 64) hlines.le (by norm_num)).div hthousand (by norm_num)
    (by norm_num)
  rw [larger]
  split
  next => exact ⟨1, denotes_one, le_refl 1⟩
  next hnot =>
    have hle : 1 ≤ r := not_lt.1 (mt (hr.lt_iff denotes_one).2 hnot)
    split
    next => exact ⟨r, hr, hle⟩
    next => exact ⟨1, denotes_one, le_refl 1⟩

theorem one_le_weekly (hteam : team < UInt32.size) :
    ∃ s, Denotes (Float.ofNat (teamSize team) * 8.0) s ∧ 1 ≤ s := by
  have hsize : teamSize team ≤ 2 ^ 64 := by
    have hbound : UInt32.size = 2 ^ 32 := rfl
    rw [teamSize]
    omega
  have height : Denotes 8.0 8 := denotes_literal (n := 8) (by norm_num)
  obtain ⟨r, hr, hone⟩ := one_le_ofNat (le_max_right team 1) hsize
  obtain ⟨r', hr', hle⟩ := within_ofNat hsize (by norm_num)
  obtain rfl := hr.unique hr'
  have hproduct : |r * 8| ≤ 2 ^ 67 := by
    rw [abs_mul, abs_of_pos (by norm_num : (0 : ℚ) < 8)]
    linarith
  obtain ⟨s, hs, hnearest⟩ :=
    (mul_roundsTo hr height).denotes (le_two_zpow_of_le (by norm_num) hproduct)
  exact ⟨s, hs, hnearest.le_of_ge OnGrid.one (by linarith)⟩

theorem within_interest (hissues : issues.length < UInt64.size) :
    Within (interestOf issues : Float) 75 := by
  unfold interestOf
  split
  · exact within_zero
  next hne =>
    obtain ⟨n, hn, hone⟩ :=
      one_le_ofNat (List.length_pos_of_ne_nil (by simpa using hne)) hissues.le
    have herrors : Within (Float.ofNat (issues.countP (·.severity == .error))) 64 :=
      within_ofNat (List.countP_le_length.trans hissues.le) (by norm_num)
    have htenth : Within 0.10 10 := within_literal (by decide +kernel)
    exact (((herrors.div hn hone (by norm_num)).mul htenth (by norm_num)).mono (by norm_num)).smaller
      (htenth.mono (by norm_num))

theorem within_numbers (hteam : team < UInt32.size) (hissues : issues.length < UInt64.size)
    (hlines : lines < UInt64.size) :
    ∀ x ∈ (ofIssues team issues lines trend : Debt Float).numbers, Within x 75 := by
  obtain ⟨s, hs, hs1⟩ := one_le_thousands hlines
  obtain ⟨u, hu, hu1⟩ := one_le_weekly hteam
  have hhours := within_totalHours issues
  have hcount : Within (Float.ofNat issues.length) 75 :=
    (within_ofNat (p := 64) hissues.le (by norm_num)).mono (by norm_num)
  simp only [numbers, List.forall_mem_cons]
  refine ⟨hhours, ?_, ?_, ?_, ?_, List.forall_mem_nil _⟩
  · exact hhours.div hs hs1 (by norm_num)
  · exact hcount.div hs hs1 (by norm_num)
  · exact within_interest hissues
  · exact hhours.div hu hu1 (by norm_num)

end Debt

/-! ## Trend -/

section trend

variable {scores : List Float}

theorem within_improvementRate (hlength : scores.length ≤ 2 ^ 64) :
    Within (improvementRate scores) 202 := by
  unfold improvementRate
  split
  · exact within_zero
  next hne =>
    obtain ⟨n, hn, hone⟩ := one_le_ofNat (n := scores.length - 1) (by omega) (by omega)
    have hrises : Within (Float.ofNat (rises scores)) 64 :=
      within_ofNat ((rises_le scores).trans ((Nat.sub_le _ 1).trans hlength)) (by norm_num)
    exact ((hrises.div hn hone (by norm_num)).mul within_hundred (by norm_num)).mono (by norm_num)

theorem within_regressionRisk {velocity volatility : Float} (hvelocity : Within velocity 191)
    (hvolatility : Within volatility 182) : Within (regressionRisk velocity volatility) 202 := by
  have htwenty : Within 20.0 10 := within_literal (by decide +kernel)
  have hten : Within 10.0 10 := within_literal (by decide +kernel)
  have hdecline : Within (if velocity < 0.0 then magnitude velocity * 20.0 else 0.0) 201 := by
    split
    · exact hvelocity.magnitude.mul htwenty (by norm_num)
    · exact within_zero
  have hrisk := (hvolatility.mul hten (by norm_num)).smaller (within_hundred.mono (by norm_num))
  exact ((hrisk.mono (by norm_num)).add hdecline (by norm_num)).smaller
    (within_hundred.mono (by norm_num))

theorem within_steadiness {volatility factor : Float} (hvolatility : Within volatility 182)
    (hfactor : Within factor 10) : Within (larger (100.0 - volatility * factor) 0.0) 202 := by
  have hhundred : Within 100.0 192 := within_hundred.mono (by norm_num)
  have hrest := hhundred.sub (hvolatility.mul hfactor (by norm_num)) (by norm_num)
  exact (hrest.larger within_zero).mono (by norm_num)

namespace Trend

/-- A trend whose numbers are far from overflow and whose velocity, if it is positive, is not tiny. -/
structure Bounded (t : Trend Float) : Prop where
  velocity : ∃ r, Denotes t.velocity r ∧ |r| ≤ 2 ^ 191 ∧ (0 < r → 2 ^ (-308 : ℤ) ≤ r)
  numbers : ∀ x ∈ t.numbers, Within x 202

theorem bounded_insufficient {last : Option Float} (hlast : ∀ y ∈ last, Within y 7) :
    (insufficient last).Bounded := by
  refine ⟨⟨0, denotes_zero, by norm_num, fun h => absurd h (lt_irrefl 0)⟩, ?_⟩
  have hpredicted : Within ((last.map clampScore).getD 0.0) 202 := by
    cases last with
    | none => exact within_zero
    | some y => exact (within_clampScore (hlast y rfl).defined).mono (by norm_num)
  have hhundred : Within 100.0 202 := within_hundred.mono (by norm_num)
  simp only [Trend.numbers, insufficient, List.flatMap_nil, List.append_nil, List.forall_mem_cons]
  exact ⟨within_zero, within_zero, within_zero, within_zero, hhundred, hpredicted,
    List.forall_mem_nil _⟩

theorem bounded_ofRecent (hlength : scores.length ≤ 2 ^ 64)
    (h : ∀ y ∈ scores, Spaced y 7 (-60)) : (ofRecent scores).Bounded := by
  obtain ⟨v, hv, hv191, hv308⟩ := denotes_slope hlength h
  have hvelocity : Within (Scalar.slope scores) 191 := ⟨v, hv, hv191⟩
  have hvolatility := within_deviation hlength fun y hy => (h y hy).within
  have hlast : Within (scores.getLast?.getD 0.0) 201 := by
    cases hlast : scores.getLast? with
    | none => exact within_zero
    | some y => exact (h y (List.mem_of_getLast? hlast)).within.mono (by norm_num)
  have hstability : Within (stabilityIndex (deviation scores)) 202 :=
    within_steadiness hvolatility (within_literal (by decide +kernel))
  have hconfidence : Within (projectionConfidence (deviation scores)) 202 :=
    within_steadiness hvolatility (within_literal (by decide +kernel))
  have hpredicted : Within (clampScore (scores.getLast?.getD 0.0 + Scalar.slope scores)) 202 :=
    (within_clampScore (hlast.add (hvelocity.mono (by norm_num)) (by norm_num)).defined).mono
      (by norm_num)
  refine ⟨⟨v, hv, hv191, hv308⟩, ?_⟩
  intro x hx
  rcases List.mem_append.1 hx with hx | hx
  · simp only [ofRecent, List.mem_cons, List.not_mem_nil, or_false] at hx
    rcases hx with rfl | rfl | rfl | rfl | rfl | rfl
    · exact hvelocity.mono (by norm_num)
    · exact hvolatility.mono (by norm_num)
    · exact within_improvementRate hlength
    · exact within_regressionRisk hvelocity hvolatility
    · exact hstability
    · exact hpredicted
  · obtain ⟨projection, hprojection, hx⟩ := List.mem_flatMap.1 hx
    obtain ⟨period, hperiod, rfl⟩ := List.mem_map.1 hprojection
    have hweeks : Within (Float.ofNat period) 10 := by
      refine within_ofNat ?_ (by norm_num)
      simp only [periods, List.mem_cons, List.not_mem_nil, or_false] at hperiod
      omega
    have hscore := hlast.add (hvelocity.mul hweeks (by norm_num)) (by norm_num)
    simp only [Projection.numbers, List.mem_cons, List.not_mem_nil, or_false] at hx
    rcases hx with rfl | rfl
    · exact (within_clampScore hscore.defined).mono (by norm_num)
    · exact hconfidence

theorem bounded_ofScores (window : ℕ) (hlength : scores.length ≤ 2 ^ 64)
    (h : ∀ y ∈ scores, Spaced y 7 (-60)) : (ofScores window scores).Bounded := by
  unfold ofScores
  split
  · exact bounded_insufficient fun y hy => (h y (List.mem_of_getLast? hy)).within
  · apply bounded_ofRecent
    · rw [recent, length_latest]
      exact (Nat.min_le_left _ _).trans hlength
    · intro y hy
      exact h y (List.mem_of_mem_drop hy)

end Trend

end trend

/-! ## Two decimals -/

theorem isFinite_hundredths {x : Float} {p : ℕ} (hx : Within x p) (hp : p + 10 ≤ 1023) :
    Scalar.isFinite (hundredths x) = true :=
  (hx.hundredths hp).isFinite

/-! ## Forecast -/

section forecast

variable {score : Float} {trend : Trend Float} {debt : Debt Float}

theorem Forecast.within_numbers (target : Float) (hscore : Within score 7) (htrend : trend.Bounded)
    (hdebt : ∀ x ∈ debt.numbers, Within x 75) :
    let f := Forecast.of target score trend debt
    ∀ x ∈ [f.score, f.confidence, f.effort], Within x 213 := by
  have hten : Within 10.0 10 := within_literal (by decide +kernel)
  have htwenty : Within 20.0 10 := within_literal (by decide +kernel)
  have hratio := hdebt debt.ratio (by simp [Debt.numbers])
  have hhours := hdebt debt.hours (by simp [Debt.numbers])
  obtain ⟨v, hv, hv191, -⟩ := htrend.velocity
  have hvelocity : Within trend.velocity 191 := ⟨v, hv, hv191⟩
  have hstability := htrend.numbers trend.stability (by simp [Trend.numbers])
  have hburden : Within (smaller (debt.ratio * 2.0) 20.0) 85 :=
    (hratio.mul (within_literal (by decide +kernel)) (by norm_num)).smaller (htwenty.mono (by norm_num))
  have hexpected := ((hscore.mono (by norm_num)).add (hvelocity.mul hten (by norm_num))
    (by norm_num)).sub (hburden.mono (by norm_num)) (by norm_num)
  have hfactor : Within 0.8 10 := within_literal (by decide +kernel)
  have hsteady := (hstability.mul hfactor (by norm_num)).add (htwenty.mono (by norm_num))
    (by norm_num)
  intro f x hx
  simp only [List.mem_cons, List.not_mem_nil, or_false] at hx
  rcases hx with rfl | rfl | rfl
  · exact (within_clampScore hexpected.defined).mono (by norm_num)
  · exact hsteady.smaller (within_hundred.mono (by norm_num))
  · exact (hhours.mul (within_literal (by decide +kernel)) (by norm_num)).mono (by norm_num)

theorem within_quotient {x y : Float} {v : ℚ} (hx : Within x 8) (hy : Denotes y v)
    (hv : 2 ^ (-308 : ℤ) ≤ v) : Within (x / y) 316 := by
  -- the velocity is not tiny, which bounds the time to the target
  obtain ⟨r, hr, hle⟩ := hx
  have hpos : 0 < v := (two_zpow_pos _).trans_le hv
  refine (div_roundsTo hr hy hpos.ne').within ?_ (by norm_num)
  rw [abs_div, abs_of_pos hpos, div_le_iff₀ hpos]
  calc |r| ≤ 2 ^ 8 := hle
    _ = 2 ^ 316 * 2 ^ (-308 : ℤ) := by
        rw [← zpow_natCast, ← zpow_natCast, ← two_zpow_add]
        congr 1
    _ ≤ 2 ^ 316 * v := mul_le_mul_of_nonneg_left hv (by positivity)

theorem Forecast.finite_iff {t : Float} (hscore : Within score 7) (htrend : trend.Bounded)
    (hdebt : ∀ x ∈ debt.numbers, Within x 75) :
    (∀ x ∈ (Forecast.of (clampScore t) score trend debt).numbers, Scalar.isFinite (hundredths x) = true) ↔
      (0.0 < trend.velocity → Defined t) := by
  have hothers := Forecast.within_numbers (clampScore t) hscore htrend hdebt
  constructor
  · -- clamping keeps an undefined target, and so do the difference and the quotient
    intro hall hpositive hnot
    have hclamp : clampScore t = t := clamp_of_notANumber hnot
    have htime : (Forecast.of (clampScore t) score trend debt).timeToTarget =
        some ((t - score) / trend.velocity) := by
      rw [hclamp]
      exact if_pos hpositive
    have hnan := hundredths_notANumber (notANumber_div (y := trend.velocity)
      (notANumber_sub (y := score) hnot))
    refine not_isFinite_of_notANumber hnan (hall _ ?_)
    rw [Forecast.numbers, htime]
    simp
  · intro hdefined x hx
    rcases List.mem_append.1 hx with hx | hx
    · exact isFinite_hundredths (hothers x hx) (by norm_num)
    · by_cases hpositive : 0.0 < trend.velocity
      · have htime : (Forecast.of (clampScore t) score trend debt).timeToTarget =
            some ((clampScore t - score) / trend.velocity) := if_pos hpositive
        rw [htime, Option.toList_some, List.mem_singleton] at hx
        -- a positive velocity is not tiny, so the quotient stays in range
        obtain ⟨v, hv, -, hv308⟩ := htrend.velocity
        have hway := (within_clampScore (hdefined hpositive)).sub hscore (by norm_num)
        rw [hx]
        exact isFinite_hundredths (within_quotient hway hv (hv308 ((denotes_zero.lt_iff hv).1 hpositive)))
          (by norm_num)
      · have htime : (Forecast.of (clampScore t) score trend debt).timeToTarget = none :=
          if_neg hpositive
        rw [htime] at hx
        exact absurd hx List.not_mem_nil

end forecast

/-! ## Profile -/

section profile

variable {as : List (Analysis Float)} {files : List (FileMeasurement Float)}

theorem defined_complexityMean (h : Scorable as) (key : String) : Defined (complexityMean as key) := by
  have hvalues : ∀ x ∈ (inCategory .complexity as).filterMap (·.metric? key), ∃ r, Denotes x r :=
    h.finite_values .complexity fun _ _ ha hx => Analysis.finite_metric ha hx
  unfold complexityMean
  simp only
  split
  · exact denotes_zero.defined
  next hne =>
    have hlength := (List.length_filterMap_le (·.metric? key) (inCategory .complexity as)).trans
      ((length_inCategory_le .complexity as).trans h.analyses.le)
    obtain ⟨n, hn, hone⟩ := one_le_ofNat (List.length_pos_of_ne_nil (by simpa using hne)) hlength
    rw [mean, if_neg hne]
    exact (defined_total hvalues).div hn (by linarith)

theorem within_maintainabilityIndex (average : Float) (lines : ℕ) (coverage : Float) :
    Within (maintainabilityIndex average lines coverage) 7 ∨
      form (maintainabilityIndex average lines coverage) = .notANumber := by
  have hband (x : Float) : Within (clamp 0.0 100.0 x) 7 ∨ form (clamp 0.0 100.0 x) = .notANumber := by
    by_cases hx : form x = .notANumber
    · rw [clamp_of_notANumber hx]
      exact .inr hx
    · exact .inl (within_clampScore hx)
  exact hband _

/-- Files that were measured, whatever their coverage, in numbers that the machine counts. -/
structure Measured (files : List (FileMeasurement Float)) : Prop where
  measured : ∀ f ∈ files, ∃ path t lines coverage, f = .ofTree path t lines coverage
  length : files.length < UInt64.size
  lines : totalCount (files.map (·.lines)) < UInt64.size
  callables : (files.flatMap (·.callables)).length < UInt64.size
  complexity : ∀ c ∈ files.flatMap (·.callables),
    c.cyclomatic < UInt64.size ∧ c.cognitive < UInt64.size

theorem within_meanCount {ms : List Measurement} {count : Measurement → ℕ}
    (hlength : ms.length < UInt64.size) (h : ∀ c ∈ ms, count c < UInt64.size) :
    Within (mean (ms.map fun c => Float.ofNat (count c))) 119 := by
  refine within_mean (p := 64) ?_ (by norm_num) (by simpa using hlength.le)
  intro x hx
  obtain ⟨c, hc, rfl⟩ := List.mem_map.1 hx
  exact within_ofNat (h c hc).le (by norm_num)

theorem Profile.finite_ofFiles_iff (h : Measured files) :
    (∀ x ∈ (Profile.ofFiles files).numbers, Scalar.isFinite (hundredths x) = true) ↔
      ∀ f ∈ files, Scalar.isFinite f.maintainability = true := by
  have hindex : ∀ f ∈ files, Within f.maintainability 7 ∨ form f.maintainability = .notANumber := by
    intro f hf
    obtain ⟨path, t, lines, coverage, rfl⟩ := h.measured f hf
    exact within_maintainabilityIndex _ lines coverage
  have hcyclomatic : Within (meanCyclomatic (files.flatMap (·.callables)) : Float) 119 := by
    unfold meanCyclomatic
    split
    · exact (within_literal (by decide +kernel)).mono (by norm_num)
    · exact within_meanCount h.callables fun c hc => (h.complexity c hc).1
  have hcognitive : Within (meanCognitive (files.flatMap (·.callables)) : Float) 119 :=
    within_meanCount h.callables fun c hc => (h.complexity c hc).2
  constructor
  · intro hall f hf
    rcases hindex f hf with hnumber | hnan
    · exact hnumber.isFinite
    · have hmean : form (mean (files.map (·.maintainability))) = .notANumber :=
        form_mean_of_notANumber ⟨_, List.mem_map_of_mem hf, hnan⟩
      have hfinite := hall (mean (files.map (·.maintainability))) (by simp [numbers, ofFiles])
      exact absurd hfinite (not_isFinite_of_notANumber (hundredths_notANumber hmean))
  · intro hfinite x hx
    have hmean : Within (mean (files.map (·.maintainability))) 62 := by
      refine within_mean (p := 7) ?_ (by norm_num) (by simpa using h.length.le)
      intro y hy
      obtain ⟨f, hf, rfl⟩ := List.mem_map.1 hy
      exact (hindex f hf).resolve_right fun hnan => not_isFinite_of_notANumber hnan (hfinite f hf)
    simp only [numbers, ofFiles, List.mem_cons, List.not_mem_nil, or_false] at hx
    rcases hx with rfl | rfl | rfl
    · exact isFinite_hundredths hmean (by norm_num)
    · exact isFinite_hundredths hcyclomatic (by norm_num)
    · exact isFinite_hundredths hcognitive (by norm_num)

theorem Profile.finite_ofAnalyses_iff (h : Scorable as) :
    (∀ x ∈ (Profile.ofAnalyses as).numbers, Scalar.isFinite (hundredths x) = true) ↔
      Scalar.isFinite (complexityMean as Metric.averageComplexity * 100.0) = true ∧
        Scalar.isFinite (complexityMean as Metric.cognitiveComplexity * 100.0) = true := by
  have hindex : Within (clampScore (complexityMean as Metric.maintainabilityIndex)) 7 :=
    within_clampScore (defined_complexityMean h _)
  have hnumbers : (Profile.ofAnalyses as).numbers =
      [clampScore (complexityMean as Metric.maintainabilityIndex),
        complexityMean as Metric.averageComplexity, complexityMean as Metric.cognitiveComplexity] := rfl
  rw [hnumbers, List.forall_mem_cons, List.forall_mem_cons, List.forall_mem_singleton,
    isFinite_hundredths_iff (x := complexityMean as Metric.averageComplexity),
    isFinite_hundredths_iff (x := complexityMean as Metric.cognitiveComplexity)]
  exact and_iff_right (isFinite_hundredths hindex (by norm_num))

end profile

end CodeQuality
