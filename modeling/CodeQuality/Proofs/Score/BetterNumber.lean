import CodeQuality.Proofs.Score.Monotone

/-!
# Better numbers

`Breakdown.better_number`: in exact arithmetic and with sound weights, a better number in one analysis
does not lower the score. Better is a larger score of its own, more coverage, more strictly typed code, a
larger share of issues that a tool can repair, a smaller average complexity, fewer type errors.

A number is replaced and not added, so that the names of the metrics stay and with them the category of
the analysis (`Analysis.classify_withMetric`). Whether the number counts at all depends on what else the
analysis reports. Where it does, all the ways in which it counts agree.
-/

namespace CodeQuality

open Scalar Exact

namespace Metric

/-- The metrics of which more is better. -/
def favourable : List String := [testCoverage, lineCoverage, strictModeCompliance, fixableRate]

/-- The metrics of which less is better. -/
def unfavourable : List String := [averageComplexity, typeErrors]

theorem not_favourable {key : String} (h : key ∈ unfavourable) : key ∉ favourable := by
  have hall : ∀ key ∈ unfavourable, key ∉ favourable := by decide
  exact hall key h

end Metric

namespace Analysis

/-- Another analysis has a better number in the place of one that an analysis reports. -/
inductive ImprovesTo (a : Analysis ℝ) : Analysis ℝ → Prop where
  | score {x y : ℝ} (h : a.score = some x) (hxy : x ≤ y) : ImprovesTo a (a.withScore y)
  | more {key : String} {x y : ℝ} (hkey : key ∈ Metric.favourable) (h : a.metric? key = some x)
    (hxy : x ≤ y) : ImprovesTo a (a.withMetric key y)
  | less {key : String} {x y : ℝ} (hkey : key ∈ Metric.unfavourable) (h : a.metric? key = some x)
    (hyx : y ≤ x) : ImprovesTo a (a.withMetric key y)

variable {a b : Analysis ℝ} {key : String} {x y : ℝ}

/-! ## What is the same -/

theorem metric?_withMetric (a : Analysis ℝ) (key name : String) (y : ℝ) :
    (a.withMetric key y).metric? name = if name = key then some y else a.metric? name :=
  Metrics.get?_set ..

theorem classify_withMetric (h : a.metric? key = some x) (y : ℝ) :
    (a.withMetric key y).classify = a.classify := by
  have hkey : a.metrics.has key = true := Option.isSome_iff_exists.2 ⟨x, h⟩
  have hhas : (a.withMetric key y).metrics.has = a.metrics.has := by
    funext name
    rw [withMetric, Metrics.has_set]
    by_cases hname : name = key <;> simp [hname, hkey]
  have hcategory : (a.withMetric key y).metrics.category? = a.metrics.category? := by
    rw [Metrics.category?, Metrics.category?, hhas]
  rw [classify, classify, hcategory]
  rfl

theorem not_malformed_of_names (ha : ¬ a.Malformed) (hissues : b.issues = a.issues)
    (hnames : ∀ entry ∈ b.metrics.entries, ∃ value, (entry.1, value) ∈ a.metrics.entries) :
    ¬ b.Malformed := by
  have hfinite (x : ℝ) : isFinite x ≠ false := Bool.noConfusion
  intro h
  cases h with
  | score _ hvalue => exact hfinite _ hvalue
  | metricName hentry hname =>
    obtain ⟨value, hmem⟩ := hnames _ hentry
    exact ha (.metricName hmem hname)
  | metric _ hvalue => exact hfinite _ hvalue
  | issueMessage hmem hmessage => exact ha (.issueMessage (hissues ▸ hmem) hmessage)
  | issueFile hmem hfile => exact ha (.issueFile (hissues ▸ hmem) hfile)

theorem mem_withMetric (h : a.metric? key = some x) (y : ℝ) :
    ∀ entry ∈ (a.withMetric key y).metrics.entries, ∃ value, (entry.1, value) ∈ a.metrics.entries := by
  intro entry hentry
  rcases Metrics.mem_setEntry hentry with rfl | hmem
  · exact ⟨x, Metrics.mem_of_get? h⟩
  · exact ⟨entry.2, hmem⟩

theorem ImprovesTo.not_malformed (h : a.ImprovesTo b) (ha : ¬ a.Malformed) : ¬ b.Malformed := by
  cases h with
  | score h hxy => exact not_malformed_of_names ha rfl fun entry hentry => ⟨entry.2, hentry⟩
  | more hkey h hxy => exact not_malformed_of_names ha rfl (mem_withMetric h _)
  | less hkey h hyx => exact not_malformed_of_names ha rfl (mem_withMetric h _)

/-! ## What is better -/

theorem rel_or {x? y? z? u? : Option ℝ} (h : Option.Rel (· ≤ ·) x? y?) (h' : Option.Rel (· ≤ ·) z? u?) :
    Option.Rel (· ≤ ·) (x?.or z?) (y?.or u?) := by
  cases h with
  | none => exact h'
  | some h => exact .some h

theorem noBetter_of_metrics (hclassify : a.classify = b.classify) (hissues : a.issues = b.issues)
    (hscore : Option.Rel (· ≤ ·) a.score b.score)
    (hmore : ∀ key ∈ Metric.favourable, Option.Rel (· ≤ ·) (a.metric? key) (b.metric? key))
    (hless : ∀ key ∈ Metric.unfavourable, Option.Rel (· ≥ ·) (a.metric? key) (b.metric? key)) :
    a.NoBetter b := by
  have hcount (severity : Severity) : b.countOf severity ≤ a.countOf severity := by
    rw [countOf, countOf, hissues]
  have hrate : a.fixableRate ≤ b.fixableRate := by
    have hrel := hmore Metric.fixableRate (by decide)
    unfold fixableRate fixables
    rw [hissues]
    generalize a.metric? Metric.fixableRate = x?, b.metric? Metric.fixableRate = y? at hrel
    cases hrel with
    | none => exact le_rfl
    | some hxy => exact hxy
  have herrors : (ofNat b.errors : ℝ) ≤ ofNat a.errors := Nat.cast_le.2 (hcount .error)
  have htypeErrors : b.typeErrors ≤ a.typeErrors :=
    getD_rel (r := (· ≥ ·)) (hless Metric.typeErrors (by decide)) herrors
  exact
    { classify := hclassify
      score := hscore
      strictness := hmore _ (by decide)
      coverage := rel_or (hmore _ (by decide)) (hmore _ (by decide))
      averageComplexity := hless _ (by decide)
      typeErrors := htypeErrors
      lint := lintScore_mono (hcount .error) (hcount .warning) (hcount .info) hrate
      errors := hcount .error
      warnings := hcount .warning
      issues := (congrArg List.length hissues).ge }

theorem rel_withMetric {r : ℝ → ℝ → Prop} (hr : ∀ x, r x x) (h : a.metric? key = some x) (name : String)
    (hxy : name = key → r x y) :
    Option.Rel r (a.metric? name) ((a.withMetric key y).metric? name) := by
  rw [metric?_withMetric]
  split
  · rename_i hname
    rw [hname, h]
    exact .some (hxy hname)
  · exact rel_self hr _

theorem ImprovesTo.noBetter (h : a.ImprovesTo b) : a.NoBetter b := by
  cases h with
  | score h hxy =>
    refine noBetter_of_metrics rfl rfl ?_ (fun _ _ => rel_self le_refl _)
      fun _ _ => rel_self (r := (· ≥ ·)) le_refl _
    rw [h]
    exact .some hxy
  | more hkey h hxy =>
    refine noBetter_of_metrics (classify_withMetric h _).symm rfl (rel_self le_refl _) ?_ ?_
    · intro name _
      exact rel_withMetric le_refl h name fun _ => hxy
    · intro name hname
      refine rel_withMetric (r := (· ≥ ·)) le_refl h name ?_
      rintro rfl
      exact absurd hkey (Metric.not_favourable hname)
  | less hkey h hyx =>
    refine noBetter_of_metrics (classify_withMetric h _).symm rfl (rel_self le_refl _) ?_ ?_
    · intro name hname
      refine rel_withMetric le_refl h name ?_
      rintro rfl
      exact absurd hname (Metric.not_favourable hkey)
    · intro name _
      exact rel_withMetric (r := (· ≥ ·)) le_refl h name fun _ => hyx

end Analysis

open Analysis

namespace Breakdown

variable {w : Weights ℝ} {before after : List (Analysis ℝ)} {a b : Analysis ℝ}

/-- **A better number does not lower a score.** Sound analyses are scored, with the better number as with
the other one, and the score is not lower, whatever the category of the analysis is and whatever else it
reports. -/
theorem better_number (hw : Weights.fault? w = none)
    (hsound : ∀ c ∈ before ++ a :: after, ¬ c.Malformed) (h : a.ImprovesTo b) :
    ∃ r s, calculate w (before ++ a :: after) = .ok r ∧ calculate w (before ++ b :: after) = .ok s ∧
      r.overall ≤ s.overall := by
  have hb : ¬ b.Malformed := h.not_malformed (hsound a (by simp))
  exact ⟨_, _, calculate_eq_ok_iff.2 ⟨hsound, rfl⟩, calculate_replaced w hsound hb,
    overall_mono hw (forall₂_noBetter h.noBetter before after)⟩

/-- A test run that only its metrics give away, and that also reports a share of lines and a complexity. -/
noncomputable def testRun (covered : ℝ) : Analysis ℝ :=
  (((Analysis.empty none).withMetric Metric.lineCoverage 30).withMetric Metric.averageComplexity
    30).withMetric Metric.testCoverage covered

/-- A percentage that rises from below the lower step to beyond the upper one. -/
theorem better_number_testRun :
    (testRun 49).coverageScore = 39 ∧ (testRun 91).coverageScore = 96 ∧
      ∃ r s, calculate .standard [.failed .lint "timeout", testRun 49] = .ok r ∧
        calculate .standard [.failed .lint "timeout", testRun 91] = .ok s ∧ r.overall ≤ s.overall := by
  have htests (x : ℝ) : (testRun x).metric? Metric.testCoverage = some x := by
    rw [testRun, metric?_withMetric, if_pos rfl]
  have hcovered (x : ℝ) : (testRun x).coverage? = some x := by
    rw [coverage?, htests]
    rfl
  refine ⟨?_, ?_, ?_⟩
  · rw [coverageScore, hcovered]
    norm_num
  · rw [coverageScore, hcovered]
    norm_num
  · have hsound : ∀ c ∈ [.failed .lint "timeout"] ++ testRun 49 :: [], ¬ c.Malformed :=
      forall_not_malformed (by decide +kernel)
    have himproves : (testRun 49).ImprovesTo ((testRun 49).withMetric Metric.testCoverage 91) :=
      .more (by decide) (htests 49) (by norm_num)
    exact better_number Exact.fault?_standard hsound himproves

end Breakdown

end CodeQuality
