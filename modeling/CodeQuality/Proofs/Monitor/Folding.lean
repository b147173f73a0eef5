import Mathlib.Data.List.Forall2
import CodeQuality.Proofs.Monitor.Tally

/-!
# Files and their folded analysis

`Monitor.evaluate_folded`: in exact arithmetic, a run on measured files and a run on the analysis that
sums them up have the same answer, but for the number of measured files.

What is scored is the same in both runs. The maintainability and the number of lines come from the files
in the one and from the metrics of the analysis in the other (`Profile.ofAnalyses_folded`). There they go
through a mean, a maximum and a band, and none of these changes a single number of the band. A number of
lines also becomes a number of the scores and a count again, which is why it must be below `2 ^ 64`.
-/

namespace CodeQuality

open Scalar Exact Set Timeline

/-! ## Timelines -/

section timeline

variable {τ : Type} [Timed τ] {capacity : ℕ} {x y : τ}

theorem forall₂_place (h : Timed.instant x = Timed.instant y) (zs : List τ) :
    List.Forall₂ (fun a b => b = a ∨ a = x ∧ b = y) (place x zs) (place y zs) := by
  induction zs with
  | nil => exact .cons (.inr ⟨rfl, rfl⟩) .nil
  | cons z zs ih =>
    rw [place, place, h]
    split
    · exact .cons (.inl rfl) ih
    · exact .cons (.inr ⟨rfl, rfl⟩) (List.forall₂_same.2 fun _ _ => .inl rfl)

theorem Timeline.forall₂_insert (h : Timed.instant x = Timed.instant y) (t : Timeline τ capacity) :
    List.Forall₂ (fun a b => b = a ∨ a = x ∧ b = y) (t.insert x).entries (t.insert y).entries := by
  have hplace := forall₂_place h t.entries
  simp only [Timeline.insert, newest, latest, hplace.length_eq]
  exact List.forall₂_drop _ hplace

end timeline

/-! ## What the metrics say -/

variable {as : List (Analysis ℝ)} {a : Analysis ℝ} {key : String} {x : ℝ}

theorem complexityMean_append_singleton (has : ∀ b ∈ as, b.classify ≠ some .complexity)
    (ha : a.classify = some .complexity) (hx : a.metric? key = some x) :
    complexityMean (as ++ [a]) key = x := by
  have hnone : inCategory .complexity as = [] :=
    List.filter_eq_nil_iff.2 fun b hb => by simpa using has b hb
  have hcategory : inCategory .complexity (as ++ [a]) = [a] := by
    rw [inCategory, List.filter_append, List.filter_singleton, ha]
    exact congrArg (· ++ [a]) hnone
  have hvalues : [a].filterMap (·.metric? key) = [x] := by
    rw [List.filterMap_cons, hx]
    rfl
  rw [complexityMean, hcategory, hvalues]
  exact mean_singleton x

theorem linesOfCode_append_singleton {n : ℕ} (has : ∀ b ∈ as, b.metric? Metric.linesOfCode = none)
    (ha : a.metric? Metric.linesOfCode = some (n : ℝ)) (hn : n < 2 ^ 64) :
    linesOfCode (as ++ [a]) [] = n := by
  have hnone : as.filterMap (·.metric? Metric.linesOfCode) = [] := List.filterMap_eq_nil_iff.2 has
  have hvalues : (as ++ [a]).filterMap (·.metric? Metric.linesOfCode) = [(n : ℝ)] := by
    rw [List.filterMap_append, hnone, List.nil_append, List.filterMap_cons, ha]
    rfl
  have hlargest : larger (0.0 : ℝ) n = n := by
    have hzero : (0.0 : ℝ) = 0 := by norm_num
    rw [larger_eq_max, hzero, max_eq_right n.cast_nonneg]
  rw [linesOfCode, hvalues]
  show min ⌊larger (0.0 : ℝ) n⌋₊ (2 ^ 64 - 1) = n
  rw [hlargest, Nat.floor_natCast]
  omega

/-! ## Reports without the number of files -/

/-- A snapshot without the number of measured files. -/
def Snapshot.uncounted (s : Snapshot ℝ) : Snapshot ℝ := { s with profile := { s.profile with files := 0 } }

/-- A report without the number of measured files. -/
def Report.uncounted (report : Report ℝ) : Report ℝ := { report with snapshot := report.snapshot.uncounted }

/-! ## The folded analysis -/

variable {files : List (FileMeasurement ℝ)}

theorem FileMeasurement.metric?_analysis (threshold : ℕ) (files : List (FileMeasurement ℝ)) (key : String) :
    (analysis threshold files).metric? key =
      [(Metric.linesOfCode, (totalLines files : ℝ)),
        (Metric.maintainabilityIndex, mean (files.map (·.maintainability))),
        (Metric.cognitiveComplexity, meanCognitive (files.flatMap (·.callables))),
        (Metric.maxComplexity, (((files.map (·.maxCyclomatic)).foldl max 0 : ℕ) : ℝ)),
        (Metric.averageComplexity, meanCyclomatic (files.flatMap (·.callables)))].lookup key :=
  Metrics.get?_ofList ..

section folded

variable {threshold : ℕ} (hfiles : files ≠ []) (hcomplexity : ∀ a ∈ as, a.classify ≠ some .complexity)
  (hlines : ∀ a ∈ as, a.metric? Metric.linesOfCode = none)
  (hindex : ∀ f ∈ files, f.maintainability ∈ Icc 0 100)
  (hcount : totalCount (files.map (·.lines)) < 2 ^ 64)

include hlines hcount

theorem linesOfCode_folded :
    linesOfCode (as ++ [FileMeasurement.analysis threshold files]) [] = FileMeasurement.totalLines files :=
  linesOfCode_append_singleton hlines (FileMeasurement.metric?_analysis threshold files _)
    ((wrappedTotal_of_lt hcount).trans_lt hcount)

include hcomplexity hindex

/-- Nothing is lost on the way through the metrics but the number of files. -/
theorem Profile.ofAnalyses_folded :
    Profile.ofAnalyses (as ++ [FileMeasurement.analysis threshold files]) =
      { Profile.ofFiles files with files := 0 } := by
  have hmetric := FileMeasurement.metric?_analysis threshold files
  have hmean {key : String} {x : ℝ} (h : (FileMeasurement.analysis threshold files).metric? key = some x) :
      complexityMean (as ++ [FileMeasurement.analysis threshold files]) key = x :=
    complexityMean_append_singleton hcomplexity rfl h
  have hband : clamp 0.0 100.0 (mean (files.map (·.maintainability))) =
      mean (files.map (·.maintainability)) :=
    clampScore_of_mem (mean_mem (by norm_num) (List.forall_mem_map.2 hindex))
  rw [ofAnalyses, hmean (hmetric Metric.maintainabilityIndex), hmean (hmetric Metric.averageComplexity),
    hmean (hmetric Metric.cognitiveComplexity), linesOfCode_folded hlines hcount, hband]
  rfl

include hfiles

theorem Monitor.observe_folded (m : Monitor ℝ) (now : Instant) (breakdown : Breakdown ℝ) :
    m.observe (as ++ [FileMeasurement.analysis threshold files]) [] now breakdown =
      (m.observe (as ++ [FileMeasurement.analysis threshold files]) files now breakdown).uncounted := by
  have hmeasured : ¬ files.isEmpty = true := by simpa using hfiles
  have hlines' : linesOfCode (as ++ [FileMeasurement.analysis threshold files]) [] =
      linesOfCode (as ++ [FileMeasurement.analysis threshold files]) files := by
    rw [linesOfCode_folded hlines hcount, linesOfCode, if_neg hmeasured]
  have hprofile : Profile.of (as ++ [FileMeasurement.analysis threshold files]) [] =
      { Profile.of (as ++ [FileMeasurement.analysis threshold files]) files with files := 0 } := by
    rw [Profile.of, Profile.of, if_pos List.isEmpty_nil, if_neg hmeasured,
      Profile.ofAnalyses_folded hcomplexity hlines hindex hcount]
  simp only [observe, hlines', hprofile]
  rfl

end folded

/-! ## Runs -/

namespace Monitor

/-- **Measured files and the analysis that sums them up say the same.** In exact arithmetic, let no
analysis be of complexity or tell a number of lines, let the indexes of the files be percentages, and let
their lines be as many as a machine can count. Then a run on the analyses and the files, and a run on the
analyses with that of the files behind them, are both refused for the same reason, or have the same
report, except that the second one measured no files. The histories that they leave behind differ in that
number of the new snapshot alone. -/
theorem evaluate_folded (m : Monitor ℝ) (now : Instant) (hfiles : files ≠ [])
    (hcomplexity : ∀ a ∈ as, a.classify ≠ some .complexity)
    (hlines : ∀ a ∈ as, a.metric? Metric.linesOfCode = none)
    (hindex : ∀ f ∈ files, f.maintainability ∈ Icc 0 100)
    (hcount : totalCount (files.map (·.lines)) < 2 ^ 64) :
    let folded := as ++ [FileMeasurement.analysis m.config.threshold files]
    (∃ e, m.evaluate as files now = .error e ∧ m.evaluate folded [] now = .error e) ∨
    ∃ report : Report ℝ,
      m.evaluate as files now = .ok (report, m.record report.snapshot) ∧
      m.evaluate folded [] now = .ok (report.uncounted, m.record report.uncounted.snapshot) ∧
      report.snapshot.profile.files = files.length ∧
      List.Forall₂ (fun s t => t = s ∨ s = report.snapshot ∧ t = report.uncounted.snapshot)
        (m.record report.snapshot).history.entries
        (m.record report.uncounted.snapshot).history.entries := by
  intro folded
  have hscored : analysesOf m.config.threshold as files = folded := by
    rw [analysesOf_eq, if_pos ⟨hfiles, hcomplexity⟩]
  cases hcalculate : Breakdown.calculate m.config.weights folded with
  | error e =>
    have hrefused : Analysis.checkAll folded = .error e := calculate_eq_error_iff.1 hcalculate
    exact .inl ⟨e, evaluate_eq_error_iff.2 (hscored ▸ hrefused), evaluate_eq_error_iff.2 hrefused⟩
  | ok breakdown =>
    let report : Report ℝ :=
      { breakdown
        snapshot := (m.observe folded files now breakdown).rounded
        suggestions := suggestions folded }
    have hreport : report.uncounted =
        { breakdown
          snapshot := (m.observe folded [] now breakdown).rounded
          suggestions := suggestions folded } := by
      rw [observe_folded hfiles hcomplexity hlines hindex hcount]
      rfl
    have hprofile : Profile.of folded files = .ofFiles files := if_neg (by simpa using hfiles)
    have hinstant : Timed.instant report.snapshot = Timed.instant report.uncounted.snapshot := rfl
    refine .inr ⟨report, ?_, ?_, ?_, m.history.forall₂_insert hinstant⟩
    · exact evaluate_eq_ok_iff.2 ⟨breakdown, by rw [hscored]; exact hcalculate, by rw [hscored], rfl⟩
    · exact evaluate_eq_ok_iff.2 ⟨breakdown, hcalculate, hreport, rfl⟩
    · exact congrArg Profile.files hprofile

/-- A file of types, in which there is nothing to be measured. -/
noncomputable def typesFile : FileMeasurement ℝ :=
  { path := "types.ts"
    definitions := []
    cyclomatic := 0
    cognitive := 0
    averageCyclomatic := 1
    maintainability := 90
    lines := 25 }

/-- Without functions the mean complexity is `1`, and so it is when the analysis reports it. -/
theorem evaluate_folded_types :
    ∃ (m : Monitor ℝ) (report : Report ℝ) (m₁ m₂ : Monitor ℝ), start .standard = .ok m ∧
      m.evaluate [.failed .lint "timeout"] [typesFile] ⟨0, 0⟩ = .ok (report, m₁) ∧
      m.evaluate [.failed .lint "timeout", FileMeasurement.analysis 10 [typesFile]] [] ⟨0, 0⟩ =
        .ok (report.uncounted, m₂) ∧
      report.snapshot.profile.files = 1 ∧ report.uncounted.snapshot.profile.lines = 25 ∧
      report.uncounted.snapshot.profile.averageCyclomatic = 1 := by
  obtain ⟨m, hm⟩ : ∃ m : Monitor ℝ, start .standard = .ok m := exists_start_iff.2 Exact.fault?_standard
  obtain ⟨-, hconfig, -⟩ := start_eq_ok hm
  have hindex : ∀ f ∈ [typesFile], f.maintainability ∈ Icc 0 100 := by
    norm_num [typesFile]
  have hdefect : (analysesOf 10 [.failed .lint "timeout"] [typesFile]).all (·.defect?.isNone) = true := by
    decide +kernel
  obtain ⟨report', m', haccepted⟩ : ∃ report m',
      m.evaluate [.failed .lint "timeout"] [typesFile] ⟨0, 0⟩ = .ok (report, m') := by
    rw [exists_evaluate_iff, hconfig]
    exact Analysis.forall_not_malformed hdefect
  have hfailed : ∀ a ∈ [(Analysis.failed .lint "timeout" : Analysis ℝ)],
      a.classify ≠ some .complexity ∧ a.metric? Metric.linesOfCode = none := by
    rw [List.forall_mem_singleton]
    exact ⟨by decide, rfl⟩
  rcases evaluate_folded m ⟨0, 0⟩ (List.cons_ne_nil typesFile []) (fun a ha => (hfailed a ha).1)
      (fun a ha => (hfailed a ha).2) hindex (by decide) with
    ⟨e, hrefused, -⟩ | ⟨report, h, hfolded, hcount, -⟩
  · rw [haccepted] at hrefused
    nomatch hrefused
  · rw [hconfig] at hfolded
    have hprofile : report.snapshot.profile = (Profile.ofFiles [typesFile]).rounded := by
      rw [(evaluate_eq_ok h).2]
      rfl
    have haverage : report.snapshot.profile.averageCyclomatic = hundredths 1.0 := by
      rw [hprofile]
      rfl
    have hone : hundredths (1.0 : ℝ) = 1 := by
      have h100 := hundredths_intCast_div 100
      norm_num at h100 ⊢
      exact h100
    exact ⟨m, report, _, _, hm, h, hfolded, hcount, congrArg Profile.lines hprofile, haverage.trans hone⟩

end Monitor

end CodeQuality
