import CodeQuality.Proofs.Analysis.Malformed
import CodeQuality.Proofs.Binary64.Whole
import CodeQuality.Score.Breakdown

/-!
# Categories apart from each other

`Breakdown.categories_apart`: what a score takes from a category depends on the analyses of that
category and on nothing else. So lists with the same analyses of every category have the same component
scores, weighted score and bonuses, and the same penalties, the one for errors apart; how the categories
are interleaved is of no importance, and nor is what has no category. Errors are counted over whole
lists.

An analysis is in at most one category, so that it counts for nothing in another one, whatever metrics
of it it has (`Breakdown.agreeOn_of_inCategory`). The bonus for few issues is the only part that reads
all categories at once (`any_classified`).
-/

namespace CodeQuality

open Scalar Binary64

variable {α : Type}

/-! ## All categories at once -/

/-- Two lists have the same analyses of every category, in the same order. -/
def SameCategories (as bs : List (Analysis α)) : Prop := ∀ c, inCategory c as = inCategory c bs

/-- Some analysis with a category has a property exactly if some analysis of some category has it. -/
theorem any_classified (p : Analysis α → Bool) (as : List (Analysis α)) :
    (as.any fun a => a.classify.isSome && p a) = Category.all.any fun c => (inCategory c as).any p := by
  rw [Bool.eq_iff_iff]
  simp only [List.any_eq_true, Bool.and_eq_true, inCategory, List.mem_filter, beq_iff_eq]
  constructor
  · rintro ⟨a, ha, hsome, hp⟩
    obtain ⟨c, hc⟩ := Option.isSome_iff_exists.1 hsome
    exact ⟨c, c.mem_all, a, ⟨ha, hc⟩, hp⟩
  · rintro ⟨c, -, a, ⟨ha, hc⟩, hp⟩
    exact ⟨a, ha, Option.isSome_iff_exists.2 ⟨c, hc⟩, hp⟩

/-! ## Errors -/

/-- The number of errors of analyses. -/
def errorCount (as : List (Analysis α)) : ℕ := (as.flatMap (·.issues)).countP (·.severity == .error)

variable [Scalar α] {w : Weights α} {as bs : List (Analysis α)}

theorem criticalIssues_eq (as : List (Analysis α)) :
    (Penalties.of as).criticalIssues = ofNat (errorCount as) * 2.0 := by
  rw [errorCount, ← totalCount_map_countP]
  rfl

theorem ofNat_mul_two_denotes {n : ℕ} (hn : n ≤ 2 ^ 53) : Denotes (Float.ofNat n * 2.0) (2 * n) := by
  have hlarge : |(n : ℚ) * 2| ≤ 2 ^ 54 := by
    rw [abs_of_nonneg (by positivity)]
    exact_mod_cast (by omega : n * 2 ≤ 2 ^ 54)
  have htwo : Denotes 2.0 2 := denotes_literal (n := 2) (by norm_num)
  have hgrid : OnGrid ((n : ℚ) * 2) := by simpa using OnGrid.of_natCast hn (q := 1) (by norm_num)
  rw [mul_comm (2 : ℚ)]
  exact (mul_roundsTo (denotes_ofNat hn) htwo).eq_of_onGrid (le_two_zpow_of_le (by norm_num) hlarge) hgrid

namespace Breakdown

/-! ## What a category decides -/

/-- Two scores agree on what a category decides: its component, and its penalty and its bonus unless it
is that of linters. -/
def AgreeOn (c : Category) (r s : Breakdown α) : Prop :=
  r.components.get c = s.components.get c ∧
    match c with
    | .typeCheck =>
      r.penalties.typeErrors = s.penalties.typeErrors ∧ r.bonuses.strictMode = s.bonuses.strictMode
    | .coverage =>
      r.penalties.lowCoverage = s.penalties.lowCoverage ∧
        r.bonuses.highCoverage = s.bonuses.highCoverage
    | .complexity =>
      r.penalties.highComplexity = s.penalties.highComplexity ∧
        r.bonuses.lowComplexity = s.bonuses.lowComplexity
    | .lint => True

theorem agreeOn_of_inCategory {c : Category} (h : inCategory c as = inCategory c bs) :
    AgreeOn c (ofAnalyses w as) (ofAnalyses w bs) := by
  refine ⟨?_, ?_⟩
  · simp only [ofAnalyses, componentScores, ByCategory.get_ofFn, h]
  · cases c with
    | lint => trivial
    | typeCheck | coverage | complexity => simp only [ofAnalyses, Penalties.of, Bonuses.of, h, and_self]

theorem bonuses_congr (h : SameCategories as bs) : Bonuses.of as = Bonuses.of bs := by
  simp only [Bonuses.of, any_classified, h _]

/-! ## What whole lists decide -/

/-- What a score takes from all analyses, with a category or without: `2` for each of their errors, and
how many of them have none. -/
structure CountsAll (as : List (Analysis Float)) (r : Breakdown Float) : Prop where
  criticalIssues : r.penalties.criticalIssues = Float.ofNat (errorCount as) * 2.0
  exact : errorCount as ≤ 2 ^ 53 → Denotes r.penalties.criticalIssues (2 * errorCount as)
  unclassified : r.unclassified = (as.filter (·.classify.isNone)).length

theorem ofAnalyses_countsAll (w : Weights Float) (as : List (Analysis Float)) :
    CountsAll as (ofAnalyses w as) := by
  have hcritical : (Penalties.of as).criticalIssues = Float.ofNat (errorCount as) * 2.0 :=
    criticalIssues_eq as
  refine ⟨hcritical, fun h => ?_, ?_⟩
  · rw [ofAnalyses, hcritical]
    exact ofNat_mul_two_denotes h
  · exact List.countP_eq_length_filter

/-- **Categories do not interfere.** Two lists of analyses of which none is malformed are scored, and
the scores agree on each category of which the lists have the same analyses in the same order. If that
holds of every category, then components, weighted score, bonuses and all penalties but that for errors
are the same, in whatever way the categories are interleaved, with each other and with analyses that
have none. Errors and analyses without a category are counted over the whole list. -/
theorem categories_apart (w : Weights Float) {as bs : List (Analysis Float)}
    (has : ∀ a ∈ as, ¬ a.Malformed) (hbs : ∀ b ∈ bs, ¬ b.Malformed) :
    ∃ r s, calculate w as = .ok r ∧ calculate w bs = .ok s ∧ CountsAll as r ∧ CountsAll bs s ∧
      (∀ c, inCategory c as = inCategory c bs → AgreeOn c r s) ∧
      (SameCategories as bs →
        r.components = s.components ∧ r.weighted = s.weighted ∧ r.bonuses = s.bonuses ∧
          r.penalties.highComplexity = s.penalties.highComplexity ∧
          r.penalties.lowCoverage = s.penalties.lowCoverage ∧
          r.penalties.typeErrors = s.penalties.typeErrors) := by
  have hagree : ∀ c, inCategory c as = inCategory c bs →
      AgreeOn c (ofAnalyses w as) (ofAnalyses w bs) := fun c => agreeOn_of_inCategory
  refine ⟨_, _, calculate_eq_ok_iff.2 ⟨has, rfl⟩, calculate_eq_ok_iff.2 ⟨hbs, rfl⟩,
    ofAnalyses_countsAll w as, ofAnalyses_countsAll w bs, hagree, fun h => ?_⟩
  obtain ⟨-, htypeErrors, -⟩ := hagree .typeCheck (h .typeCheck)
  obtain ⟨-, hlowCoverage, -⟩ := hagree .coverage (h .coverage)
  obtain ⟨-, hhighComplexity, -⟩ := hagree .complexity (h .complexity)
  have hcomponents : componentScores as = componentScores bs :=
    ByCategory.ext_get fun c => (hagree c (h c)).1
  refine ⟨hcomponents, ?_, bonuses_congr h, hhighComplexity, hlowCoverage, htypeErrors⟩
  simp only [ofAnalyses, hcomponents]

/-- A type check, and a test run that only its metrics give away and that also reports a complexity. -/
def checkAndTests : List (Analysis Float) :=
  [(Analysis.empty (some .typeCheck)).withIssues
      [{ severity := .error, file := "a.ts", message := "not a number" }],
    ((Analysis.empty none).withMetric Metric.testCoverage 40.0).withMetric
      Metric.averageComplexity 30.0]

/-- What has no category, an error in it. -/
def unmarked : Analysis Float :=
  (Analysis.empty none).withIssues [{ severity := .error, file := "a.ts", message := "unreachable" }]

/-- The tests before the type check, and an analysis without a category between them: the error of the
latter is all that makes a difference. -/
theorem categories_apart_unmarked :
    ∃ r s, calculate .standard checkAndTests = .ok r ∧
      calculate .standard (checkAndTests.reverse.intersperse unmarked) = .ok s ∧
      r.weighted = s.weighted ∧ r.bonuses = s.bonuses ∧
      Denotes r.penalties.criticalIssues 2 ∧ Denotes s.penalties.criticalIssues 4 ∧
      r.unclassified = 0 ∧ s.unclassified = 1 := by
  have hsame : SameCategories checkAndTests (checkAndTests.reverse.intersperse unmarked) := by
    intro c
    cases c <;> rfl
  have hsound : ∀ a ∈ checkAndTests, ¬ a.Malformed := Analysis.forall_not_malformed (by decide +kernel)
  have hsound' : ∀ a ∈ checkAndTests.reverse.intersperse unmarked, ¬ a.Malformed :=
    Analysis.forall_not_malformed (by decide +kernel)
  obtain ⟨r, s, hr, hs, hcounts, hcounts', -, hsum⟩ := categories_apart .standard hsound hsound'
  obtain ⟨-, hweighted, hbonuses, -⟩ := hsum hsame
  refine ⟨r, s, hr, hs, hweighted, hbonuses, ?_, ?_, hcounts.unclassified, hcounts'.unclassified⟩
  · have hone : errorCount checkAndTests = 1 := rfl
    simpa [hone] using hcounts.exact (by decide)
  · have htwo : errorCount (checkAndTests.reverse.intersperse unmarked) = 2 := rfl
    have hexact := hcounts'.exact (by decide)
    rw [htwo] at hexact
    norm_num at hexact
    exact hexact

end Breakdown

end CodeQuality
