import CodeQuality.Proofs.Exact.Arithmetic
import CodeQuality.Proofs.Monitor.Answers
import CodeQuality.Proofs.Score.Categories

/-!
# Counting issues

`Monitor.tally_evaluate`: in exact arithmetic, every number of a report that counts issues is a function
of one list of issues and of the number of lines. The list has the issues of all analyses, and one for
each measured function above the threshold if no analysis is of complexity. So an issue counts once in
each number, and for none of them it matters which analysis reports it, or in which order.

The penalty goes through the counts of each analysis, the debt through the flattened list, and the health
through one count for each severity; `totalCount_map_countP` brings them together.
-/

namespace CodeQuality

open Scalar Exact

/-! ## The issues of a run -/

section issues

variable {α : Type} [Scalar α]

/-- The issues of a run: those of all analyses, and one for each measured function above the threshold
unless there are no files or some analysis is of complexity. -/
def issuesOf (threshold : ℕ) (as : List (Analysis α)) (files : List (FileMeasurement α)) : List Issue :=
  as.flatMap (·.issues) ++
    if files ≠ [] ∧ ∀ a ∈ as, a.classify ≠ some .complexity then
      files.flatMap fun file =>
        (file.callables.filter (threshold < ·.cyclomatic)).map (·.issue threshold file.path)
    else []

theorem analysesOf_eq (threshold : ℕ) (as : List (Analysis α)) (files : List (FileMeasurement α)) :
    Monitor.analysesOf threshold as files =
      as ++ if files ≠ [] ∧ ∀ a ∈ as, a.classify ≠ some .complexity then
          [FileMeasurement.analysis threshold files] else [] := by
  have hiff : (files.isEmpty || as.any (·.classify == some .complexity)) = true ↔
      ¬ (files ≠ [] ∧ ∀ a ∈ as, a.classify ≠ some .complexity) := by
    simp only [Bool.or_eq_true, List.isEmpty_iff, List.any_eq_true, beq_iff_eq]
    grind
  unfold Monitor.analysesOf
  by_cases h : files ≠ [] ∧ ∀ a ∈ as, a.classify ≠ some .complexity
  · rw [if_neg (fun hor => hiff.1 hor h), if_pos h]
  · rw [if_pos (hiff.2 h), if_neg h, List.append_nil]

theorem flatMap_issues_analysesOf (threshold : ℕ) (as : List (Analysis α))
    (files : List (FileMeasurement α)) :
    (Monitor.analysesOf threshold as files).flatMap (·.issues) = issuesOf threshold as files := by
  rw [analysesOf_eq, issuesOf, List.flatMap_append]
  split
  · rw [List.flatMap_singleton]
    rfl
  · rfl

theorem linesOfCode_analysesOf (threshold : ℕ) (as : List (Analysis α))
    (files : List (FileMeasurement α)) :
    linesOfCode (Monitor.analysesOf threshold as files) files = linesOfCode as files := by
  cases files with
  | nil => rfl
  | cons file files => rfl

end issues

/-! ## The numbers that count issues -/

/-- The numbers of a report that count issues. -/
@[ext]
structure Tally where
  issues : ℕ
  errors : ℕ
  warnings : ℕ
  infos : ℕ
  criticalIssues : ℝ
  hours : ℝ
  ratio : ℝ
  density : ℝ
  interest : ℝ

def Report.tally (report : Report ℝ) : Tally :=
  { issues := report.snapshot.health.issues
    errors := report.snapshot.health.errors
    warnings := report.snapshot.health.warnings
    infos := report.snapshot.health.infos
    criticalIssues := report.breakdown.penalties.criticalIssues
    hours := report.snapshot.debt.hours
    ratio := report.snapshot.debt.ratio
    density := report.snapshot.debt.density
    interest := report.snapshot.debt.interest }

/-- The numbers that given issues amount to in a number of lines. -/
noncomputable def Tally.of (issues : List Issue) (lines : ℕ) : Tally :=
  let errors := issues.countP (·.severity = .error)
  let hours : ℝ := (issues.map (·.hours)).sum
  let thousands : ℝ := max (lines / 1000) 1
  { issues := issues.length
    errors
    warnings := issues.countP (·.severity = .warning)
    infos := issues.countP (·.severity = .info)
    criticalIssues := 2 * errors
    hours := hundredths hours
    ratio := hundredths (hours / thousands)
    density := hundredths (issues.length / thousands)
    interest := hundredths (if issues = [] then 0 else 0.1 * errors / issues.length) }

theorem Tally.of_perm {issues issues' : List Issue} (h : issues.Perm issues') (lines : ℕ) :
    Tally.of issues lines = .of issues' lines := by
  have hempty : issues = [] ↔ issues' = [] := by
    rw [← List.length_eq_zero_iff, h.length_eq, List.length_eq_zero_iff]
  simp only [Tally.of, h.length_eq, h.countP_eq, (h.map _).sum_eq, hempty]

theorem Tally.severities (issues : List Issue) (lines : ℕ) :
    (Tally.of issues lines).errors + (Tally.of issues lines).warnings + (Tally.of issues lines).infos =
      (Tally.of issues lines).issues := by
  simp only [Tally.of]
  induction issues with
  | nil => rfl
  | cons issue issues ih =>
    rw [List.countP_cons, List.countP_cons, List.countP_cons, List.length_cons, ← ih]
    cases issue.severity <;> simp <;> omega

/-! ## Debt -/

theorem totalHours_eq_sum (issues : List Issue) :
    totalHours issues = (issues.map fun issue => (issue.hours : ℝ)).sum := by
  rw [totalHours, List.sum_eq_foldl, List.foldl_map]
  norm_num

theorem Debt.interestOf_eq (issues : List Issue) :
    Debt.interestOf issues =
      if issues = [] then (0 : ℝ)
      else 0.1 * issues.countP (·.severity = .error) / issues.length := by
  unfold interestOf
  by_cases h : issues = []
  · rw [if_pos h, if_pos (List.isEmpty_iff.2 h)]
    norm_num
  · rw [if_neg h, if_neg (by simpa using h), smaller_eq_min]
    have hlength : (0 : ℝ) < issues.length := by exact_mod_cast List.length_pos_iff.2 h
    have hcount : (issues.countP (·.severity = .error) : ℝ) ≤ issues.length := by
      exact_mod_cast List.countP_le_length
    -- the errors are at most all issues, so that the cap is never reached
    have hshare : (issues.countP (·.severity = .error) : ℝ) / issues.length ≤ 1 :=
      (div_le_one₀ hlength).2 hcount
    show min ((issues.countP (·.severity = .error) : ℝ) / issues.length * 0.10) 0.10 = _
    rw [min_eq_left (by linarith)]
    ring

theorem Debt.thousands_eq (lines : ℕ) :
    larger (ofNat lines / 1000.0) 1.0 = max ((lines : ℝ) / 1000) 1 := by
  rw [larger_eq_max]
  show max ((lines : ℝ) / 1000.0) 1.0 = _
  norm_num

theorem Debt.rounded_ofIssues (team : ℕ) (issues : List Issue) (lines : ℕ) (trend : DebtTrend) :
    let debt := (Debt.ofIssues team issues lines trend : Debt ℝ).rounded
    let tally := Tally.of issues lines
    debt.hours = tally.hours ∧ debt.ratio = tally.ratio ∧ debt.density = tally.density ∧
      debt.interest = tally.interest := by
  have hdebt : (Debt.ofIssues team issues lines trend : Debt ℝ) =
      { hours := totalHours issues
        ratio := totalHours issues / larger (ofNat lines / 1000.0) 1.0
        density := issues.length / larger (ofNat lines / 1000.0) 1.0
        interest := interestOf issues
        payback := totalHours issues / (ofNat (teamSize team) * 8.0)
        trend } := rfl
  simp only [hdebt, Debt.rounded, Tally.of, thousands_eq, totalHours_eq_sum, interestOf_eq, and_self]

/-! ## Redistribution -/

section redistribution

variable {α : Type} {as bs : List (Analysis α)}

/-- An analysis without its issues. -/
def Analysis.bare (a : Analysis α) : Analysis α := { a with issues := [] }

/-- The same analyses but for their issues, and the same issues altogether: analyses and issues may stand
in another order, and an issue may be in another analysis. -/
structure Redistributed (as bs : List (Analysis α)) : Prop where
  analyses : (as.map (·.bare)).Perm (bs.map (·.bare))
  issues : (as.flatMap (·.issues)).Perm (bs.flatMap (·.issues))

theorem Redistributed.classify_iff (h : Redistributed as bs) :
    (∀ a ∈ as, a.classify ≠ some .complexity) ↔ ∀ b ∈ bs, b.classify ≠ some .complexity := by
  have hbare (cs : List (Analysis α)) : (∀ c ∈ cs, c.classify ≠ some .complexity) ↔
      ∀ c ∈ cs.map (·.bare), c.classify ≠ some .complexity := by
    rw [List.forall_mem_map]
    rfl
  rw [hbare as, hbare bs]
  exact forall_congr' fun c => imp_congr_left h.analyses.mem_iff

variable [Scalar α]

theorem Analysis.malformed_iff_bare {a : Analysis α} :
    a.Malformed ↔ a.bare.Malformed ∨ ∃ issue ∈ a.issues,
      Text.trim issue.message = "" ∨ issue.file = "" := by
  constructor
  · intro h
    cases h with
    | score h hvalue => exact .inl (.score h hvalue)
    | metricName h hname => exact .inl (.metricName h hname)
    | metric h hvalue => exact .inl (.metric h hvalue)
    | issueMessage h hmessage => exact .inr ⟨_, h, .inl hmessage⟩
    | issueFile h hfile => exact .inr ⟨_, h, .inr hfile⟩
  · rintro (h | ⟨issue, h, hmessage | hfile⟩)
    · cases h with
      | score h hvalue => exact .score h hvalue
      | metricName h hname => exact .metricName h hname
      | metric h hvalue => exact .metric h hvalue
      | issueMessage h => nomatch h
      | issueFile h => nomatch h
    · exact .issueMessage h hmessage
    · exact .issueFile h hfile

theorem forall_not_malformed_iff :
    (∀ a ∈ as, ¬ a.Malformed) ↔
      (∀ a ∈ as.map (·.bare), ¬ a.Malformed) ∧
        ∀ issue ∈ as.flatMap (·.issues), ¬ (Text.trim issue.message = "" ∨ issue.file = "") := by
  rw [List.forall_mem_map]
  constructor
  · intro h
    refine ⟨fun a ha hbare => h a ha (Analysis.malformed_iff_bare.2 (.inl hbare)), ?_⟩
    intro issue hi hbad
    obtain ⟨a, ha, hissue⟩ := List.mem_flatMap.1 hi
    exact h a ha (Analysis.malformed_iff_bare.2 (.inr ⟨issue, hissue, hbad⟩))
  · rintro ⟨hbare, hissues⟩ a ha hmalformed
    rcases Analysis.malformed_iff_bare.1 hmalformed with h | ⟨issue, hissue, hbad⟩
    · exact hbare a ha h
    · exact hissues issue (List.mem_flatMap.2 ⟨a, ha, hissue⟩) hbad

namespace Redistributed

theorem not_malformed (h : Redistributed as bs) (has : ∀ a ∈ as, ¬ a.Malformed) :
    ∀ b ∈ bs, ¬ b.Malformed := by
  rw [forall_not_malformed_iff] at has ⊢
  exact ⟨fun b hb => has.1 b (h.analyses.mem_iff.2 hb), fun issue hi => has.2 issue (h.issues.mem_iff.2 hi)⟩

theorem analysesOf (h : Redistributed as bs) (threshold : ℕ) (files : List (FileMeasurement α)) :
    Redistributed (Monitor.analysesOf threshold as files) (Monitor.analysesOf threshold bs files) := by
  simp only [analysesOf_eq, h.classify_iff]
  constructor
  · rw [List.map_append, List.map_append]
    exact h.analyses.append_right _
  · rw [List.flatMap_append, List.flatMap_append]
    exact h.issues.append_right _

end Redistributed

end redistribution

theorem foldl_larger_perm {xs ys : List ℝ} (h : xs.Perm ys) (x : ℝ) :
    xs.foldl larger x = ys.foldl larger x := by
  have hcomm : RightCommutative (larger : ℝ → ℝ → ℝ) :=
    ⟨fun x y z => by simp only [larger_eq_max, max_right_comm]⟩
  exact h.foldl_eq x

theorem Redistributed.linesOfCode_eq {as bs : List (Analysis ℝ)} (h : Redistributed as bs)
    (files : List (FileMeasurement ℝ)) : linesOfCode as files = linesOfCode bs files := by
  have hbare : ∀ cs : List (Analysis ℝ), cs.filterMap (·.metric? Metric.linesOfCode) =
      (cs.map (·.bare)).filterMap (·.metric? Metric.linesOfCode) := by
    intro cs
    rw [List.filterMap_map]
    rfl
  rw [linesOfCode, linesOfCode, hbare as, hbare bs, foldl_larger_perm (h.analyses.filterMap _)]

/-! ## Runs -/

namespace Monitor

variable {m m' : Monitor ℝ} {as : List (Analysis ℝ)} {files : List (FileMeasurement ℝ)} {now : Instant}
  {report : Report ℝ}

theorem tally_of_evaluate (h : m.evaluate as files now = .ok (report, m')) :
    report.tally = .of (issuesOf m.config.threshold as files) (linesOfCode as files) := by
  obtain ⟨hbreakdown, hsnapshot⟩ := evaluate_eq_ok h
  have hissues := flatMap_issues_analysesOf m.config.threshold as files
  have hlines := linesOfCode_analysesOf m.config.threshold as files
  -- of what is scored only the list of its issues and the number of its lines matter
  generalize analysesOf m.config.threshold as files = scored at *
  generalize issuesOf m.config.threshold as files = issues at *
  subst hissues
  have hcount (severity : Severity) : totalCount (scored.map (·.countOf severity)) =
      (scored.flatMap (·.issues)).countP (·.severity = severity) :=
    totalCount_map_countP _ _ scored
  have hcritical : report.breakdown.penalties.criticalIssues =
      2 * ((scored.flatMap (·.issues)).countP (·.severity = .error) : ℝ) := by
    rw [hbreakdown, Breakdown.ofAnalyses, criticalIssues_eq]
    have htwo : (2.0 : ℝ) = 2 := by norm_num
    show (errorCount scored : ℝ) * 2.0 = 2 * errorCount scored
    rw [htwo, mul_comm]
  have hdebt : report.snapshot.debt =
      (Debt.ofIssues m.config.teamSize (scored.flatMap (·.issues)) (linesOfCode as files)
        (m.debtTrendWith now (totalHours (scored.flatMap (·.issues))))).rounded := by
    rw [hsnapshot, ← hlines]
    rfl
  obtain ⟨hhours, hratio, hdensity, hinterest⟩ := Debt.rounded_ofIssues m.config.teamSize
    (scored.flatMap (·.issues)) (linesOfCode as files)
    (m.debtTrendWith now (totalHours (scored.flatMap (·.issues))))
  rw [← hdebt] at hhours hratio hdensity hinterest
  have hhealth : report.snapshot.health = .of scored report.breakdown := by
    rw [hsnapshot]
    rfl
  refine Tally.ext ?_ ?_ ?_ ?_ hcritical hhours hratio hdensity hinterest
  · rw [Report.tally, hhealth]
    exact totalCount_map_length _ scored
  · rw [Report.tally, hhealth]
    exact hcount .error
  · rw [Report.tally, hhealth]
    exact hcount .warning
  · rw [Report.tally, hhealth]
    exact hcount .info

/-- **No issue is lost or counted twice.** In exact arithmetic, the numbers of a report that count issues
are those that the issues of the run amount to in its number of lines; each issue is an error, a warning
or an information. However the same issues are distributed among the analyses, the run is accepted and
has the same numbers. -/
theorem tally_evaluate (h : m.evaluate as files now = .ok (report, m')) :
    report.tally = .of (issuesOf m.config.threshold as files) (linesOfCode as files) ∧
    report.snapshot.health.errors + report.snapshot.health.warnings + report.snapshot.health.infos =
      report.snapshot.health.issues ∧
    ∀ bs, Redistributed as bs →
      ∃ report' m'', m.evaluate bs files now = .ok (report', m'') ∧ report'.tally = report.tally := by
  have htally := tally_of_evaluate h
  refine ⟨htally, ?_, fun bs hbs => ?_⟩
  · have hsum := Tally.severities (issuesOf m.config.threshold as files) (linesOfCode as files)
    rw [← htally] at hsum
    exact hsum
  · have hscored := hbs.analysesOf m.config.threshold files
    obtain ⟨report', m'', h'⟩ := exists_evaluate_iff.2
      (hscored.not_malformed (exists_evaluate_iff.1 ⟨report, m', h⟩))
    refine ⟨report', m'', h', ?_⟩
    have hissues : (issuesOf m.config.threshold as files).Perm (issuesOf m.config.threshold bs files) := by
      rw [← flatMap_issues_analysesOf, ← flatMap_issues_analysesOf]
      exact hscored.issues
    rw [htally, tally_of_evaluate h', hbs.linesOfCode_eq files, Tally.of_perm hissues]

/-- A file with a function of complexity `16`. -/
noncomputable def branchyFile : FileMeasurement ℝ :=
  { path := "b.ts"
    definitions := [⟨"f", .function, 1, 16, 20, 30, 2⟩]
    cyclomatic := 16
    cognitive := 20
    averageCyclomatic := 16
    maintainability := 70
    lines := 40 }

def unusedName : Issue := { severity := .warning, file := "a.ts", message := "unused" }

/-- An analysis without a category and one of a linter, with given issues. -/
def unmarkedAndLint (xs ys : List Issue) : List (Analysis ℝ) :=
  [(Analysis.empty none).withIssues xs, (Analysis.empty (some .lint)).withIssues ys]

theorem exists_evaluate_branchy (hm : m.config = .standard) (now : Instant) :
    ∃ report m', m.evaluate (unmarkedAndLint [unusedName] []) [branchyFile] now = .ok (report, m') := by
  have hdefect : (analysesOf 10 (unmarkedAndLint [unusedName] []) [branchyFile]).all
      (·.defect?.isNone) = true := by decide +kernel
  rw [exists_evaluate_iff, hm]
  exact Analysis.forall_not_malformed hdefect

/-- A warning, and a function far above the threshold of `10`. It does not matter which of two analyses
reports the warning. -/
theorem tally_evaluate_branchy :
    ∃ m report m' report' m'', start .standard = .ok m ∧
      m.evaluate (unmarkedAndLint [unusedName] []) [branchyFile] ⟨0, 0⟩ = .ok (report, m') ∧
      m.evaluate (unmarkedAndLint [] [unusedName]) [branchyFile] ⟨0, 0⟩ = .ok (report', m'') ∧
      report.tally.errors = 1 ∧ report.tally.issues = 2 ∧ report.tally.hours = 4.5 ∧
      report'.tally = report.tally := by
  obtain ⟨m, hm⟩ : ∃ m : Monitor ℝ, start .standard = .ok m := exists_start_iff.2 Exact.fault?_standard
  obtain ⟨-, hconfig, -⟩ := start_eq_ok hm
  obtain ⟨report, m', h⟩ := exists_evaluate_branchy hconfig ⟨0, 0⟩
  obtain ⟨htally, -, hredistributed⟩ := tally_evaluate h
  obtain ⟨report', m'', h', hsame⟩ :=
    hredistributed (unmarkedAndLint [] [unusedName]) ⟨.refl _, .refl _⟩
  rw [hconfig] at htally
  have hhours : (issuesOf 10 (unmarkedAndLint [unusedName] []) [branchyFile]).map (·.hours) =
      [(0.5 : ℝ), 4] := by
    have hmentions : Text.mentions complexityRule "complexity" = true := by decide +kernel
    show [Severity.warning.hours * ruleMultiplier none,
      Severity.error.hours * ruleMultiplier (some complexityRule)] = _
    simp only [ruleMultiplier, if_pos hmentions, Severity.hours]
    norm_num
  have hrounded : hundredths (4.5 : ℝ) = 4.5 := by
    have h450 := hundredths_intCast_div 450
    norm_num at h450 ⊢
    exact h450
  refine ⟨m, report, m', report', m'', hm, h, h', by rw [htally]; rfl, by rw [htally]; rfl, ?_, hsame⟩
  rw [htally, ← hrounded]
  show hundredths ((issuesOf 10 (unmarkedAndLint [unusedName] []) [branchyFile]).map (·.hours)).sum =
    hundredths (4.5 : ℝ)
  rw [hhours]
  norm_num

end Monitor

end CodeQuality
