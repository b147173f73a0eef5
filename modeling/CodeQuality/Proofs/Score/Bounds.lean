import CodeQuality.Score.Breakdown
import CodeQuality.Proofs.Analysis.Malformed
import CodeQuality.Proofs.Binary64.Defined
import CodeQuality.Proofs.Score.Rescaling

/-!
# Scores are numbers

The overall score of analyses that are scored is a number between `0` and `100`
(`Breakdown.denotes_overall`), whatever finite metrics they report. A metric may be so large that a
sum of penalties is infinite. But only one penalty has no upper bound, so that nothing undefined comes
out when it is subtracted, and the score is moved into its band at the end.
-/

namespace CodeQuality

open Scalar Binary64

/-! ## Component scores -/

namespace Analysis

variable {a : Analysis Float}

theorem finite_metric (ha : ¬ a.Malformed) {key : String} {x : Float} (h : a.metric? key = some x) :
    ∃ r, Denotes x r := by
  obtain ⟨before, after, hentries, -⟩ := List.lookup_eq_some_iff.1 h
  have hmem : (key, x) ∈ a.metrics.entries := by
    rw [hentries]
    simp
  rw [denotes_iff_isFinite]
  by_contra hnot
  exact ha (.metric hmem (Bool.not_eq_true _ ▸ hnot))

theorem finite_coverage (ha : ¬ a.Malformed) {x : Float} (h : a.coverage? = some x) :
    ∃ r, Denotes x r := by
  rcases Option.or_eq_some_iff.1 h with h | ⟨-, h⟩
  · exact finite_metric ha h
  · exact finite_metric ha h

theorem within_count (severity : Severity) (h : a.issues.length < UInt64.size) :
    Within (Float.ofNat (a.countOf severity)) 64 :=
  within_ofNat (List.countP_le_length.trans h.le) (by norm_num)

theorem within_deducted {factor warnings : Float} (h : a.issues.length < UInt64.size)
    (hfactor : Within factor 10) (hwarnings : Within warnings 75) :
    Within (100.0 - factor * Float.ofNat a.errors - warnings) 76 := by
  have hhundred : Within 100.0 74 := within_hundred.mono (by norm_num)
  exact (hhundred.sub (hfactor.mul (within_count _ h) (by norm_num)) (by norm_num)).sub hwarnings
    (by norm_num)

theorem defined_typeCheckScore (h : a.issues.length < UInt64.size) : Defined a.typeCheckScore := by
  have hwarnings : Within (2.0 * Float.ofNat a.warnings) 75 :=
    ((within_literal (by decide +kernel)).mul (within_count _ h) (by norm_num)).mono (by norm_num)
  have hbonus : Within (if a.strictness?.any (95.0 < ·) then 5.0 else 0.0) 76 := by
    split <;> exact (within_literal (by decide +kernel)).mono (by norm_num)
  have hfactor : Within 10.0 10 := within_literal (by decide +kernel)
  exact ((within_deducted h hfactor hwarnings).add hbonus (by norm_num)).defined

theorem defined_lintScore (h : a.issues.length < UInt64.size) : Defined a.lintScore := by
  have hwarnings : Within (Float.ofNat a.warnings) 75 := (within_count _ h).mono (by norm_num)
  have hinfos : Within (0.5 * Float.ofNat a.infos) 76 :=
    ((within_literal (by decide +kernel)).mul (within_count _ h) (by norm_num)).mono (by norm_num)
  have hbonus : Within (if 0.8 < a.fixableRate then 3.0 else 0.0) 77 := by
    split <;> exact (within_literal (by decide +kernel)).mono (by norm_num)
  have hfactor : Within 5.0 10 := within_literal (by decide +kernel)
  exact (((within_deducted h hfactor hwarnings).sub hinfos (by norm_num)).add hbonus
    (by norm_num)).defined

theorem defined_coverageScore (ha : ¬ a.Malformed) : Defined a.coverageScore := by
  have hcovered : ∃ r, Denotes (a.coverage?.getD 0.0) r := by
    cases h : a.coverage? with
    | none => exact ⟨0, denotes_zero⟩
    | some x => exact finite_coverage ha h
  obtain ⟨r, hr⟩ := hcovered
  have hbonus : Within (if 90.0 < a.coverage?.getD 0.0 then 5.0
      else if a.coverage?.getD 0.0 < 50.0 then -10.0 else 0.0) 10 := by
    split
    · exact within_literal (by decide +kernel)
    · split <;> exact within_literal (by decide +kernel)
  exact hr.add_defined hbonus.defined

theorem defined_complexityScore (ha : ¬ a.Malformed) (h : a.issues.length < UInt64.size) :
    Defined a.complexityScore := by
  have hwarnings : Within (5.0 * Float.ofNat a.warnings) 75 :=
    ((within_literal (by decide +kernel)).mul (within_count _ h) (by norm_num)).mono (by norm_num)
  have haverage : Defined
      ((a.averageComplexity?.map fun average => 3.0 * (10.0 - average)).getD 0.0) := by
    cases h : a.averageComplexity? with
    | none => exact denotes_zero.defined
    | some average =>
      obtain ⟨r, hr⟩ := finite_metric ha h
      have hten : Denotes 10.0 10 := denotes_literal (n := 10) (by norm_num)
      have hthree : Denotes 3.0 3 := denotes_literal (n := 3) (by norm_num)
      exact hthree.mul_defined (by norm_num) (sub_roundsTo hten hr).defined
  have hfactor : Within 15.0 10 := within_literal (by decide +kernel)
  obtain ⟨r, hr, -⟩ := within_deducted h hfactor hwarnings
  exact hr.add_defined haverage

theorem denotes_componentScore (ha : ¬ a.Malformed) (h : a.issues.length < UInt64.size)
    (c : Category) : ∃ r, Denotes (a.componentScore c) r ∧ 0 ≤ r ∧ r ≤ 100 := by
  unfold componentScore
  split
  next score hscore =>
    have hfinite : ∃ r, Denotes score r := by
      rw [denotes_iff_isFinite]
      by_contra hnot
      exact ha (.score hscore (Bool.not_eq_true _ ▸ hnot))
    obtain ⟨r, hr⟩ := hfinite
    exact denotes_clampScore hr.defined
  next =>
    apply denotes_clampScore
    cases c with
    | typeCheck => exact defined_typeCheckScore h
    | lint => exact defined_lintScore h
    | coverage => exact defined_coverageScore ha
    | complexity => exact defined_complexityScore ha h

end Analysis

/-! ## The overall score -/

/-- Analyses of which none is malformed and whose issues are counted in 64 bits. -/
structure Scorable (as : List (Analysis Float)) : Prop where
  sound : ∀ a ∈ as, ¬ a.Malformed
  analyses : as.length < UInt64.size
  issues : (as.flatMap (·.issues)).length < UInt64.size

section overall

variable {as : List (Analysis Float)} {c : Category}

theorem length_issues_le {a : Analysis Float} (ha : a ∈ as) :
    a.issues.length ≤ (as.flatMap (·.issues)).length := by
  rw [List.length_flatMap]
  exact List.le_sum_of_mem (List.mem_map_of_mem ha)

theorem totalCount_errors_le (as : List (Analysis Float)) :
    totalCount (as.map (·.errors)) ≤ (as.flatMap (·.issues)).length :=
  (totalCount_map_countP _ _ as).le.trans List.countP_le_length

theorem length_inCategory_le (c : Category) (as : List (Analysis Float)) :
    (inCategory c as).length ≤ as.length := List.length_filter_le _ _

theorem Scorable.of_mem (h : Scorable as) {a : Analysis Float} (ha : a ∈ inCategory c as) :
    ¬ a.Malformed ∧ a.issues.length < UInt64.size := by
  have hmem := (List.mem_filter.1 ha).1
  exact ⟨h.sound a hmem, (length_issues_le hmem).trans_lt h.issues⟩

theorem within_componentScores (h : Scorable as) (c : Category) :
    Within ((componentScores as).get c) 62 := by
  rw [componentScores, ByCategory.get_ofFn]
  refine within_mean (p := 7) ?_ (by norm_num) ?_
  · intro x hx
    obtain ⟨a, ha, rfl⟩ := List.mem_map.1 hx
    obtain ⟨hsound, hissues⟩ := h.of_mem ha
    obtain ⟨r, hr, hr0, hr100⟩ := a.denotes_componentScore hsound hissues c
    exact hr.within_of_nonneg hr0 (hr100.trans (by norm_num))
  · rw [List.length_map]
    exact (length_inCategory_le c as).trans h.analyses.le

theorem within_weightedScore {w : Weights Float} (hw : Weights.fault? w = none) (h : Scorable as) :
    Within (weightedScore w (componentScores as)) 117 := by
  refine within_total (p := 62) ?_ (by norm_num)
  intro x hx
  obtain ⟨c, -, rfl⟩ := List.mem_map.1 hx
  obtain ⟨r, hr, hr0, hr1⟩ := inRange_iff.1 ((Weights.fault?_eq_none_iff.1 hw).1 c)
  have hweight : Within (w.get c) 0 := hr.within_of_nonneg hr0 (by linarith)
  exact (within_componentScores h c).mul hweight (by norm_num)

/-! ### Penalties -/

theorem nonneg_excessComplexity {x : Float} {r : ℚ} (hx : Denotes x r) : Nonneg (excessComplexity x) := by
  have hten : Denotes 10.0 10 := denotes_literal (n := 10) (by norm_num)
  have htwo : Denotes 2.0 2 := denotes_literal (n := 2) (by norm_num)
  exact (nonneg_larger_zero (sub_roundsTo hx hten).defined).mul htwo (by norm_num)

theorem nonneg_missingCoverage {x : Float} {r : ℚ} (hx : Denotes x r) : Nonneg (missingCoverage x) := by
  have hsixty : Denotes 60.0 60 := denotes_literal (n := 60) (by norm_num)
  exact (nonneg_larger_zero (sub_roundsTo hsixty hx).defined).mul denotes_half (by norm_num)

theorem Scorable.finite_values (h : Scorable as) (c : Category) {value? : Analysis Float → Option Float}
    (hvalue : ∀ a x, ¬ a.Malformed → value? a = some x → ∃ r, Denotes x r) :
    ∀ x ∈ (inCategory c as).filterMap value?, ∃ r, Denotes x r := by
  intro x hx
  obtain ⟨a, ha, hmetric⟩ := List.mem_filterMap.1 hx
  exact hvalue a x (h.of_mem ha).1 hmetric

/-- A sum of penalties may be infinite, but its upper bound makes a number of it. -/
theorem within_penalty {values : List Float} {penalty : Float → Float} {bound : Float} {b : ℚ}
    (hvalues : ∀ x ∈ values, ∃ r, Denotes x r)
    (hpenalty : ∀ {x r}, Denotes x r → Nonneg (penalty x)) (hbound : Denotes bound b) (h0 : 0 ≤ b)
    (h : b ≤ 2 ^ 7) : Within (smaller (total (values.map penalty)) bound) 7 := by
  have hnonneg : ∀ x ∈ values.map penalty, Nonneg x := by
    intro x hx
    obtain ⟨value, hmem, rfl⟩ := List.mem_map.1 hx
    obtain ⟨r, hr⟩ := hvalues value hmem
    exact hpenalty hr
  obtain ⟨r, hr, hr0, hrb⟩ := (nonneg_total hnonneg).smaller hbound h0
  exact hr.within_of_nonneg hr0 (hrb.trans h)

theorem within_highComplexity (h : Scorable as) : Within (Penalties.of as).highComplexity 7 :=
  within_penalty (h.finite_values .complexity fun _ _ ha hx => Analysis.finite_metric ha hx)
    nonneg_excessComplexity (denotes_literal (n := 20) (by norm_num)) (by norm_num) (by norm_num)

theorem within_lowCoverage (h : Scorable as) : Within (Penalties.of as).lowCoverage 7 :=
  within_penalty (h.finite_values .coverage fun _ _ ha hx => Analysis.finite_coverage ha hx)
    nonneg_missingCoverage (denotes_literal (n := 15) (by norm_num)) (by norm_num) (by norm_num)

theorem defined_typeErrors (h : Scorable as) : Defined (Penalties.of as).typeErrors := by
  have herrors : ∀ x ∈ (inCategory .typeCheck as).map (·.typeErrors), ∃ r, Denotes x r := by
    intro x hx
    obtain ⟨a, ha, rfl⟩ := List.mem_map.1 hx
    obtain ⟨hsound, hissues⟩ := h.of_mem ha
    unfold Analysis.typeErrors
    cases hmetric : a.metric? Metric.typeErrors with
    | some x => exact Analysis.finite_metric hsound hmetric
    | none =>
      obtain ⟨r, hr, -⟩ := Analysis.within_count .error hissues
      exact ⟨r, hr⟩
  have hfactor : Denotes 1.5 (3 / 2) :=
    .of_full (s := .positive) (m := 3 * 2 ^ 51) (q := -52) rfl (by norm_num) (by norm_num)
      (by norm_num [signed])
  exact (defined_total herrors).mul hfactor (by norm_num)

theorem defined_penalties (h : Scorable as) : Defined (Penalties.of as).total := by
  have hcritical : Within (Penalties.of as).criticalIssues 74 :=
    (within_ofNat ((totalCount_errors_le as).trans h.issues.le) (by norm_num)).mul
      (within_literal (by decide +kernel)) (by norm_num)
  have hcomplexity := (within_highComplexity h).mono (q := 74) (by norm_num)
  have hcoverage := (within_lowCoverage h).mono (q := 75) (by norm_num)
  obtain ⟨r, hr, -⟩ := (hcritical.add hcomplexity (by norm_num)).add hcoverage (by norm_num)
  exact hr.add_defined (defined_typeErrors h)

theorem within_bonuses (as : List (Analysis Float)) : Within (Bonuses.of as).total 13 := by
  have haward {amount : Float} (h : Within amount 10) (earned : Bool) :
      Within (award amount earned) 10 := by
    unfold award
    split
    · exact h
    · exact within_literal (by decide +kernel)
  have hstrict : Within (Bonuses.of as).strictMode 10 := haward (within_literal (by decide +kernel)) _
  have hcoverage : Within (Bonuses.of as).highCoverage 10 :=
    haward (within_literal (by decide +kernel)) _
  have hcomplexity : Within (Bonuses.of as).lowComplexity 11 :=
    (haward (within_literal (by decide +kernel)) _).mono (by norm_num)
  have hclean : Within (Bonuses.of as).cleanCode 12 :=
    (haward (within_literal (by decide +kernel)) _).mono (by norm_num)
  exact ((hstrict.add hcoverage (by norm_num)).add hcomplexity (by norm_num)).add hclean (by norm_num)

/-- The overall score of analyses that are scored is a number between `0` and `100`. -/
theorem Breakdown.denotes_overall {w : Weights Float} (hw : Weights.fault? w = none)
    (h : Scorable as) : ∃ r, Denotes (ofAnalyses w as).overall r ∧ 0 ≤ r ∧ r ≤ 100 := by
  apply denotes_clampScore
  obtain ⟨r, hr, -⟩ := within_weightedScore hw h
  obtain ⟨s, hs, -⟩ := within_bonuses as
  exact (hr.sub_defined (defined_penalties h)).add hs

end overall

end CodeQuality
