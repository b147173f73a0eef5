import CodeQuality.Proofs.Exact.Arithmetic
import CodeQuality.Proofs.Score.Categories
import CodeQuality.Proofs.Score.Ranges

/-!
# Scores in order

`Breakdown.overall_mono`: in exact arithmetic and with weights that are not negative, lists of analyses of
which each is in no respect better than the one at its place in another list do not score higher.

`Analysis.NoBetter` compares two analyses by all that a score reads of them. A score has every number of
an analysis pass through steps (bonuses from a bound on, penalties below one), sums, a mean, caps and
bands. Each of these is monotone, and none of them turns the order around. Only what the issues of a
linter amount to is compared as a whole (`NoBetter.lint`): a further issue may be one that a tool can
repair, and then the share of those grows while the issue itself costs something.
-/

namespace CodeQuality

open Scalar Exact

variable {as bs : List (Analysis ℝ)} {w : Weights ℝ}

/-! ## Analyses in order -/

/-- All that a score reads of an analysis is no better than for another one of its category. -/
structure Analysis.NoBetter (a b : Analysis ℝ) : Prop where
  classify : a.classify = b.classify
  score : Option.Rel (· ≤ ·) a.score b.score
  strictness : Option.Rel (· ≤ ·) a.strictness? b.strictness?
  coverage : Option.Rel (· ≤ ·) a.coverage? b.coverage?
  averageComplexity : Option.Rel (· ≥ ·) a.averageComplexity? b.averageComplexity?
  typeErrors : b.typeErrors ≤ a.typeErrors
  lint : a.lintScore ≤ b.lintScore
  errors : b.errors ≤ a.errors
  warnings : b.warnings ≤ a.warnings
  issues : b.issues.length ≤ a.issues.length

theorem rel_self {r : ℝ → ℝ → Prop} (hr : ∀ x, r x x) (x? : Option ℝ) : Option.Rel r x? x? := by
  cases x? with
  | none => exact .none
  | some x => exact .some (hr x)

theorem getD_rel {r : ℝ → ℝ → Prop} {x? y? : Option ℝ} {x y : ℝ} (h : Option.Rel r x? y?) (hxy : r x y) :
    r (x?.getD x) (y?.getD y) := by
  cases h with
  | none => exact hxy
  | some h => exact h

theorem any_above_mono {bound : ℝ} {x? y? : Option ℝ} (h : Option.Rel (· ≤ ·) x? y?)
    (hx : x?.any (bound < ·)) : y?.any (bound < ·) := by
  cases h with
  | none => exact hx
  | some h => exact decide_eq_true ((of_decide_eq_true hx).trans_le h)

theorem any_below_mono {bound : ℝ} {x? y? : Option ℝ} (h : Option.Rel (· ≥ ·) x? y?)
    (hx : x?.any (· < bound)) : y?.any (· < bound) := by
  cases h with
  | none => exact hx
  | some h => exact decide_eq_true (h.trans_lt (of_decide_eq_true hx))

theorem award_mono {amount : ℝ} (h : 0 ≤ amount) {p q : Bool} (hpq : p → q) :
    award amount p ≤ award amount q := by
  cases p with
  | true => rw [hpq rfl]
  | false => exact (award_mem le_rfl false).2.trans (award_mem h q).1

/-! ## Component scores -/

namespace Analysis

variable {a b : Analysis ℝ}

theorem NoBetter.refl (a : Analysis ℝ) : a.NoBetter a where
  classify := rfl
  score := rel_self le_refl _
  strictness := rel_self le_refl _
  coverage := rel_self le_refl _
  averageComplexity := rel_self (r := (· ≥ ·)) le_refl _
  typeErrors := le_rfl
  lint := le_rfl
  errors := le_rfl
  warnings := le_rfl
  issues := le_rfl

theorem typeCheckScore_mono (h : a.NoBetter b) : a.typeCheckScore ≤ b.typeCheckScore := by
  have herrors : (ofNat b.errors : ℝ) ≤ ofNat a.errors := Nat.cast_le.2 h.errors
  have hwarnings : (ofNat b.warnings : ℝ) ≤ ofNat a.warnings := Nat.cast_le.2 h.warnings
  have hbonus : award (5.0 : ℝ) (a.strictness?.any (95.0 < ·)) ≤
      award 5.0 (b.strictness?.any (95.0 < ·)) :=
    award_mono (by norm_num) (any_above_mono h.strictness)
  unfold award at hbonus
  unfold typeCheckScore
  linarith

theorem coverage_step_mono {x y : ℝ} (h : x ≤ y) :
    (x + if 90.0 < x then 5.0 else if x < 50.0 then -10.0 else 0.0) ≤
      y + if 90.0 < y then 5.0 else if y < 50.0 then -10.0 else 0.0 := by
  split_ifs <;> linarith

theorem coverageScore_mono (h : a.NoBetter b) : a.coverageScore ≤ b.coverageScore := by
  have hcovered : a.coverage?.getD 0.0 ≤ b.coverage?.getD 0.0 := getD_rel h.coverage le_rfl
  exact coverage_step_mono hcovered

theorem complexityScore_mono (h : a.NoBetter b) : a.complexityScore ≤ b.complexityScore := by
  have herrors : (ofNat b.errors : ℝ) ≤ ofNat a.errors := Nat.cast_le.2 h.errors
  have hwarnings : (ofNat b.warnings : ℝ) ≤ ofNat a.warnings := Nat.cast_le.2 h.warnings
  have hshape : (a.averageComplexity?.map fun average => 3.0 * (10.0 - average)).getD 0.0 ≤
      (b.averageComplexity?.map fun average => 3.0 * (10.0 - average)).getD 0.0 := by
    have hrel := h.averageComplexity
    generalize a.averageComplexity? = x?, b.averageComplexity? = y? at hrel
    cases hrel with
    | none => exact le_rfl
    | some hyx =>
      simp only [Option.map_some, Option.getD_some]
      linarith
  unfold complexityScore
  linarith

theorem lintScore_mono (herrors : b.errors ≤ a.errors) (hwarnings : b.warnings ≤ a.warnings)
    (hinfos : b.infos ≤ a.infos) (hrate : a.fixableRate ≤ b.fixableRate) :
    a.lintScore ≤ b.lintScore := by
  have herrors' : (ofNat b.errors : ℝ) ≤ ofNat a.errors := Nat.cast_le.2 herrors
  have hwarnings' : (ofNat b.warnings : ℝ) ≤ ofNat a.warnings := Nat.cast_le.2 hwarnings
  have hinfos' : (ofNat b.infos : ℝ) ≤ ofNat a.infos := Nat.cast_le.2 hinfos
  have hbonus : (if 0.8 < a.fixableRate then (3.0 : ℝ) else 0.0) ≤
      if 0.8 < b.fixableRate then 3.0 else 0.0 := by
    split_ifs <;> linarith
  unfold lintScore
  linarith

theorem componentScore_mono (h : a.NoBetter b) (c : Category) :
    a.componentScore c ≤ b.componentScore c := by
  have hderived : a.derivedScore c ≤ b.derivedScore c := by
    apply clampScore_mono
    cases c with
    | typeCheck => exact typeCheckScore_mono h
    | lint => exact h.lint
    | coverage => exact coverageScore_mono h
    | complexity => exact complexityScore_mono h
  have hscore := h.score
  unfold componentScore
  generalize a.score = x?, b.score = y? at hscore
  cases hscore with
  | none => exact hderived
  | some hxy => exact clampScore_mono hxy

end Analysis

open Analysis

theorem forall₂_inCategory (h : List.Forall₂ NoBetter as bs) (c : Category) :
    List.Forall₂ NoBetter (inCategory c as) (inCategory c bs) := by
  refine List.rel_filter (fun a b hab => ?_) h
  simp only [hab.classify]

theorem componentScores_mono (h : List.Forall₂ NoBetter as bs) (c : Category) :
    (componentScores as).get c ≤ (componentScores bs).get c := by
  rw [componentScores, componentScores, ByCategory.get_ofFn, ByCategory.get_ofFn]
  apply mean_mono
  rw [List.forall₂_map_left_iff, List.forall₂_map_right_iff]
  exact (forall₂_inCategory h c).imp fun a b hab => componentScore_mono hab c

theorem weightedScore_mono (hw : ∀ c, 0 ≤ w.get c) {v v' : ByCategory ℝ}
    (h : ∀ c, v.get c ≤ v'.get c) : weightedScore w v ≤ weightedScore w v' := by
  rw [weightedScore, weightedScore, total_eq_sum, total_eq_sum]
  exact List.sum_le_sum fun c _ => mul_le_mul_of_nonneg_right (h c) (hw c)

/-! ## Penalties -/

theorem total_map_le {σ τ : Type} {r : σ → τ → Prop} {f : σ → ℝ} {g : τ → ℝ}
    (hfg : ∀ x y, r x y → g y ≤ f x) {xs : List σ} {ys : List τ} (h : List.Forall₂ r xs ys) :
    total (ys.map g) ≤ total (xs.map f) := by
  have hmap : List.Forall₂ (flip (· ≤ ·)) (xs.map f) (ys.map g) := by
    rw [List.forall₂_map_left_iff, List.forall₂_map_right_iff]
    exact h.imp hfg
  rw [total_eq_sum, total_eq_sum]
  exact hmap.flip.sum_le_sum

theorem missingCoverage_anti {x y : ℝ} (h : x ≤ y) : missingCoverage y ≤ missingCoverage x := by
  rw [missingCoverage, missingCoverage, larger_eq_max, larger_eq_max]
  gcongr

theorem excessComplexity_mono {x y : ℝ} (h : x ≤ y) : excessComplexity x ≤ excessComplexity y := by
  rw [excessComplexity, excessComplexity, larger_eq_max, larger_eq_max]
  gcongr

theorem capped_anti {r : ℝ → ℝ → Prop} {value? : Analysis ℝ → Option ℝ} {penalty : ℝ → ℝ} (cap : ℝ)
    (hvalue : ∀ a b, NoBetter a b → Option.Rel r (value? a) (value? b))
    (hpenalty : ∀ x y, r x y → penalty y ≤ penalty x) (h : List.Forall₂ NoBetter as bs) :
    smaller (total ((bs.filterMap value?).map penalty)) cap ≤
      smaller (total ((as.filterMap value?).map penalty)) cap := by
  have hvalues : List.Forall₂ r (as.filterMap value?) (bs.filterMap value?) :=
    List.rel_filterMap hvalue h
  rw [smaller_eq_min, smaller_eq_min]
  exact min_le_min_right cap (total_map_le hpenalty hvalues)

theorem lowCoverage_anti (h : List.Forall₂ NoBetter as bs) :
    (Penalties.of bs).lowCoverage ≤ (Penalties.of as).lowCoverage :=
  capped_anti 15.0 (fun _ _ hab => hab.coverage) (fun _ _ hxy => missingCoverage_anti hxy)
    (forall₂_inCategory h .coverage)

theorem highComplexity_anti (h : List.Forall₂ NoBetter as bs) :
    (Penalties.of bs).highComplexity ≤ (Penalties.of as).highComplexity :=
  capped_anti 20.0 (fun _ _ hab => hab.averageComplexity) (fun _ _ hxy => excessComplexity_mono hxy)
    (forall₂_inCategory h .complexity)

theorem typeErrors_anti (h : List.Forall₂ NoBetter as bs) :
    (Penalties.of bs).typeErrors ≤ (Penalties.of as).typeErrors := by
  have htotal : total ((inCategory .typeCheck bs).map (·.typeErrors)) ≤
      total ((inCategory .typeCheck as).map (·.typeErrors)) :=
    total_map_le (fun _ _ hab => hab.typeErrors) (forall₂_inCategory h .typeCheck)
  exact mul_le_mul_of_nonneg_right htotal (by norm_num)

theorem errorCount_anti (h : List.Forall₂ NoBetter as bs) : errorCount bs ≤ errorCount as := by
  induction h with
  | nil => exact le_rfl
  | cons hab _ ih =>
    rw [errorCount, errorCount, List.flatMap_cons, List.flatMap_cons, List.countP_append,
      List.countP_append]
    exact Nat.add_le_add hab.errors ih

/-! ## Bonuses -/

theorem any_mono {as bs : List (Analysis ℝ)} {p : Analysis ℝ → Bool}
    (hp : ∀ a b, NoBetter a b → p a → p b) (h : List.Forall₂ NoBetter as bs) (has : as.any p) :
    bs.any p := by
  induction h with
  | nil => exact has
  | cons hab _ ih =>
    rw [List.any_cons, Bool.or_eq_true] at has ⊢
    exact has.imp (hp _ _ hab) ih

theorem bonuses_mono (h : List.Forall₂ NoBetter as bs) : (Bonuses.of as).total ≤ (Bonuses.of bs).total := by
  have hstrict : (Bonuses.of as).strictMode ≤ (Bonuses.of bs).strictMode :=
    award_mono (by norm_num)
      (any_mono (fun _ _ hab => any_above_mono hab.strictness) (forall₂_inCategory h .typeCheck))
  have hcovered : (Bonuses.of as).highCoverage ≤ (Bonuses.of bs).highCoverage :=
    award_mono (by norm_num)
      (any_mono (fun _ _ hab => any_above_mono hab.coverage) (forall₂_inCategory h .coverage))
  have hsimple : (Bonuses.of as).lowComplexity ≤ (Bonuses.of bs).lowComplexity :=
    award_mono (by norm_num)
      (any_mono (fun _ _ hab => any_below_mono hab.averageComplexity) (forall₂_inCategory h .complexity))
  have hclean : (Bonuses.of as).cleanCode ≤ (Bonuses.of bs).cleanCode := by
    refine award_mono (by norm_num) (any_mono (fun a b hab ha => ?_) h)
    rw [Bool.and_eq_true, decide_eq_true_iff] at ha ⊢
    exact ⟨hab.classify ▸ ha.1, hab.issues.trans_lt ha.2⟩
  unfold Bonuses.total
  linarith

/-! ## Overall -/

namespace Breakdown

/-- The score before it is moved into its band. -/
noncomputable def raw (r : Breakdown ℝ) : ℝ := r.weighted - r.penalties.total + r.bonuses.total

theorem overall_ofAnalyses (w : Weights ℝ) (as : List (Analysis ℝ)) :
    (ofAnalyses w as).overall = clampScore (ofAnalyses w as).raw := rfl

theorem raw_add_errors_le (hw : Weights.fault? w = none) (h : List.Forall₂ NoBetter as bs) :
    (ofAnalyses w as).raw + 2 * ((errorCount as : ℝ) - errorCount bs) ≤ (ofAnalyses w bs).raw := by
  have hweighted : weightedScore w (componentScores as) ≤ weightedScore w (componentScores bs) :=
    weightedScore_mono (fun c => ((fault?_eq_none_iff.1 hw).1 c).1) (componentScores_mono h)
  have hcritical (cs : List (Analysis ℝ)) : (Penalties.of cs).criticalIssues = 2 * errorCount cs := by
    rw [criticalIssues_eq]
    have htwo : (2.0 : ℝ) = 2 := by norm_num
    rw [htwo, mul_comm]
    rfl
  have hcomplexity := highComplexity_anti h
  have hcoverage := lowCoverage_anti h
  have htypeErrors := typeErrors_anti h
  have hbonuses := bonuses_mono h
  -- of the penalties the one for errors is kept apart, all others are compared
  show weightedScore w (componentScores as) - (Penalties.of as).total + (Bonuses.of as).total + _ ≤
    weightedScore w (componentScores bs) - (Penalties.of bs).total + (Bonuses.of bs).total
  rw [Penalties.total, Penalties.total, hcritical, hcritical]
  linarith

/-- **Analyses that are no better do not score higher.** -/
theorem overall_mono (hw : Weights.fault? w = none) (h : List.Forall₂ NoBetter as bs) :
    (ofAnalyses w as).overall ≤ (ofAnalyses w bs).overall := by
  have herrors : (errorCount bs : ℝ) ≤ errorCount as := Nat.cast_le.2 (errorCount_anti h)
  have hraw := raw_add_errors_le hw h
  rw [overall_ofAnalyses, overall_ofAnalyses]
  exact clampScore_mono (by linarith)

/-! ### Another analysis in the place of one -/

variable {a b : Analysis ℝ} {before after : List (Analysis ℝ)}

theorem forall₂_noBetter (h : a.NoBetter b) (before after : List (Analysis ℝ)) :
    List.Forall₂ NoBetter (before ++ a :: after) (before ++ b :: after) := by
  have hrefl (cs : List (Analysis ℝ)) : List.Forall₂ NoBetter cs cs :=
    List.forall₂_same.2 fun c _ => .refl c
  exact List.rel_append (hrefl before) (.cons h (hrefl after))

theorem calculate_replaced (w : Weights ℝ) (hsound : ∀ c ∈ before ++ a :: after, ¬ c.Malformed)
    (hb : ¬ b.Malformed) :
    calculate w (before ++ b :: after) = .ok (ofAnalyses w (before ++ b :: after)) := by
  refine calculate_eq_ok_iff.2 ⟨fun c hc => ?_, rfl⟩
  rcases List.mem_cons.1 (List.perm_middle.mem_iff.1 hc) with rfl | hc
  · exact hb
  · exact hsound c (List.perm_middle.mem_iff.2 (List.mem_cons_of_mem _ hc))

end Breakdown

end CodeQuality
