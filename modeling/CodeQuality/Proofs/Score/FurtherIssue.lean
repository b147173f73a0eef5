import CodeQuality.Proofs.Score.Monotone

/-!
# Further issues

`Breakdown.further_issue`: in exact arithmetic and with sound weights, an analysis that reports one more
issue does not score higher, provided that the issue is an error or that no tool can repair it. An error
takes at least `2` from the score before it is moved into its band.

Some terms of a score count all issues, some the errors, and some only where no metric speaks for them.
All of them fall or stay, except for the bonus of a linter whose issues a tool can repair. But an issue
that no tool can repair does not raise the share of the others (`Analysis.Gains.fixableRate_le`), and an
error costs a linter `5`, which is more than the bonus of `3` that it may bring.
-/

namespace CodeQuality

open Scalar Exact

namespace Analysis

/-- Another analysis reports one issue more, anywhere among the issues of the first. -/
inductive Gains (a : Analysis ℝ) (issue : Issue) : Analysis ℝ → Prop where
  | between (front back : List Issue) (h : a.issues = front ++ back) :
    Gains a issue { a with issues := front ++ issue :: back }

namespace Gains

variable {a b : Analysis ℝ} {issue : Issue}

/-! ## What is the same -/

theorem bare_eq (h : a.Gains issue b) : { b with issues := a.issues } = a := by
  cases h
  rfl

theorem metric?_eq (h : a.Gains issue b) (key : String) : b.metric? key = a.metric? key := by
  cases h
  rfl

theorem mem_issues (h : a.Gains issue b) {other : Issue} (hother : other ∈ b.issues) :
    other = issue ∨ other ∈ a.issues := by
  obtain ⟨front, back, hissues⟩ := h
  rw [hissues]
  exact List.mem_cons.1 (List.perm_middle.mem_iff.1 hother)

theorem not_malformed (h : a.Gains issue b) (ha : ¬ a.Malformed)
    (hmessage : Text.trim issue.message ≠ "") (hfile : issue.file ≠ "") : ¬ b.Malformed := by
  intro hb
  have hsame := h.bare_eq
  cases hb with
  | score hscore hvalue => exact ha (hsame ▸ .score hscore hvalue)
  | metricName hentry hname => exact ha (hsame ▸ .metricName hentry hname)
  | metric hentry hvalue => exact ha (hsame ▸ .metric hentry hvalue)
  | issueMessage hmem hblank =>
    rcases h.mem_issues hmem with rfl | hmem
    · exact hmessage hblank
    · exact ha (.issueMessage hmem hblank)
  | issueFile hmem hempty =>
    rcases h.mem_issues hmem with rfl | hmem
    · exact hfile hempty
    · exact ha (.issueFile hmem hempty)

/-! ## Counts -/

theorem countP (h : a.Gains issue b) (p : Issue → Bool) :
    b.issues.countP p = a.issues.countP p + if p issue then 1 else 0 := by
  obtain ⟨front, back, hissues⟩ := h
  rw [hissues, List.perm_middle.countP_eq, List.countP_cons]

theorem length (h : a.Gains issue b) : b.issues.length = a.issues.length + 1 := by
  simpa using h.countP fun _ => true

theorem countOf_le (h : a.Gains issue b) (severity : Severity) : a.countOf severity ≤ b.countOf severity := by
  rw [countOf, countOf, h.countP]
  exact Nat.le_add_right _ _

theorem errors_eq (h : a.Gains issue b) (herror : issue.severity = .error) : b.errors = a.errors + 1 := by
  rw [errors, countOf, h.countP, if_pos (by rw [herror]; rfl)]
  rfl

end Gains

/-! ## The share of issues that a tool can repair -/

theorem fixableRate_of_none {a : Analysis ℝ} (h : a.metric? Metric.fixableRate = none) :
    a.fixableRate = (a.fixables : ℝ) / a.issues.length := by
  simp only [fixableRate, h]
  split
  · -- without issues the quotient is one by zero
    rename_i hempty
    rw [List.isEmpty_iff.1 hempty, List.length_nil, Nat.cast_zero, div_zero]
    norm_num
  · rfl

namespace Gains

variable {a b : Analysis ℝ} {issue : Issue}

theorem fixableRate_le (h : a.Gains issue b) (hfixable : issue.fixable = false) :
    b.fixableRate ≤ a.fixableRate := by
  cases hmetric : a.metric? Metric.fixableRate with
  | some rate =>
    have hb : b.metric? Metric.fixableRate = some rate := (h.metric?_eq _).trans hmetric
    simp only [fixableRate, hb, hmetric, le_refl]
  | none =>
    have hfixables : b.fixables = a.fixables := by
      rw [fixables, fixables, h.countP, hfixable]
      rfl
    rw [fixableRate_of_none hmetric, fixableRate_of_none ((h.metric?_eq _).trans hmetric), hfixables,
      h.length]
    cases hlength : a.issues.length with
    | zero =>
      have hnone : a.fixables = 0 := Nat.le_zero.1 (hlength ▸ List.countP_le_length)
      simp [hnone]
    | succ n =>
      gcongr
      omega

theorem typeErrors_le (h : a.Gains issue b) : a.typeErrors ≤ b.typeErrors := by
  rw [typeErrors, typeErrors, h.metric?_eq]
  cases a.metric? Metric.typeErrors with
  | some errors => exact le_rfl
  | none => exact Nat.cast_le.2 (h.countOf_le .error)

theorem lintScore_le (h : a.Gains issue b) (hkind : issue.severity = .error ∨ issue.fixable = false) :
    b.lintScore ≤ a.lintScore := by
  rcases hkind with herror | hfixable
  · have herrors : (ofNat b.errors : ℝ) = ofNat a.errors + 1 := by
      rw [h.errors_eq herror]
      exact Nat.cast_succ _
    have hwarnings : (ofNat a.warnings : ℝ) ≤ ofNat b.warnings := Nat.cast_le.2 (h.countOf_le .warning)
    have hinfos : (ofNat a.infos : ℝ) ≤ ofNat b.infos := Nat.cast_le.2 (h.countOf_le .info)
    unfold lintScore
    -- the error costs `5`, and the bonus that may come with it is `3`
    split_ifs <;> linarith
  · exact lintScore_mono (h.countOf_le .error) (h.countOf_le .warning) (h.countOf_le .info)
      (h.fixableRate_le hfixable)

theorem noBetter (h : a.Gains issue b) (hkind : issue.severity = .error ∨ issue.fixable = false) :
    b.NoBetter a where
  classify := by cases h; rfl
  score := by cases h; exact (NoBetter.refl a).score
  strictness := by cases h; exact (NoBetter.refl a).strictness
  coverage := by cases h; exact (NoBetter.refl a).coverage
  averageComplexity := by cases h; exact (NoBetter.refl a).averageComplexity
  typeErrors := h.typeErrors_le
  lint := h.lintScore_le hkind
  errors := h.countOf_le .error
  warnings := h.countOf_le .warning
  issues := h.length ▸ Nat.le_succ _

end Gains

end Analysis

open Analysis

namespace Breakdown

variable {w : Weights ℝ} {before after : List (Analysis ℝ)} {a b : Analysis ℝ} {issue : Issue}

/-- **A further issue does not improve a score**, if it is an error or no tool can repair it: sound
analyses are scored, with the further issue as without it, and the score is not higher. An error lowers
the score by `2` at least, as long as no band is in the way. -/
theorem further_issue (hw : Weights.fault? w = none)
    (hsound : ∀ c ∈ before ++ a :: after, ¬ c.Malformed) (hmessage : Text.trim issue.message ≠ "")
    (hfile : issue.file ≠ "") (hkind : issue.severity = .error ∨ issue.fixable = false)
    (h : a.Gains issue b) :
    ∃ r s, calculate w (before ++ a :: after) = .ok r ∧ calculate w (before ++ b :: after) = .ok s ∧
      s.overall ≤ r.overall ∧ (issue.severity = .error → s.raw + 2 ≤ r.raw) := by
  have hlists : List.Forall₂ NoBetter (before ++ b :: after) (before ++ a :: after) :=
    forall₂_noBetter (h.noBetter hkind) before after
  have hb : ¬ b.Malformed := h.not_malformed (hsound a (by simp)) hmessage hfile
  refine ⟨_, _, calculate_eq_ok_iff.2 ⟨hsound, rfl⟩, calculate_replaced w hsound hb,
    overall_mono hw hlists, fun herror => ?_⟩
  have herrors : errorCount (before ++ b :: after) = errorCount (before ++ a :: after) + 1 := by
    have hcount : b.issues.countP (·.severity == .error) = a.issues.countP (·.severity == .error) + 1 :=
      h.errors_eq herror
    simp only [errorCount, List.flatMap_append, List.flatMap_cons, List.countP_append, hcount]
    omega
  have hraw := raw_add_errors_le hw hlists
  rw [herrors] at hraw
  push_cast at hraw
  linarith

/-- An issue of a linter. -/
def lintIssue (severity : Severity) (fixable : Bool) : Issue :=
  { severity, file := "a.ts", message := "unused", fixable }

/-- A linter with five warnings, and possibly other issues behind the second one. -/
def lintWith (issues : List Issue) : Analysis ℝ :=
  (Analysis.empty (some .lint)).withIssues
    ([lintIssue .warning false, lintIssue .warning true] ++ issues ++
      List.replicate 3 (lintIssue .warning true))

/-- Of five warnings a tool can repair four. An error that it can repair brings the bonus, and yet the
score falls. -/
theorem further_issue_repairable :
    (lintWith []).fixableRate = 0.8 ∧ 0.8 < (lintWith [lintIssue .error true]).fixableRate ∧
      ∃ r s, calculate .standard [lintWith []] = .ok r ∧
        calculate .standard [lintWith [lintIssue .error true]] = .ok s ∧
        s.overall ≤ r.overall ∧ s.raw + 2 ≤ r.raw := by
  have hbefore : (lintWith []).fixableRate = ((4 : ℕ) : ℝ) / (5 : ℕ) := fixableRate_of_none rfl
  have hafter : (lintWith [lintIssue .error true]).fixableRate = ((5 : ℕ) : ℝ) / (6 : ℕ) :=
    fixableRate_of_none rfl
  refine ⟨by rw [hbefore]; norm_num, by rw [hafter]; norm_num, ?_⟩
  have hsound : ∀ c ∈ [] ++ lintWith [] :: [], ¬ c.Malformed :=
    forall_not_malformed (by decide +kernel)
  have hgains : (lintWith []).Gains (lintIssue .error true) (lintWith [lintIssue .error true]) :=
    .between [lintIssue .warning false, lintIssue .warning true]
      (List.replicate 3 (lintIssue .warning true)) rfl
  obtain ⟨r, s, hr, hs, hoverall, hraw⟩ := further_issue Exact.fault?_standard hsound
    (by decide +kernel) (by decide +kernel) (.inl rfl) hgains
  exact ⟨r, s, hr, hs, hoverall, hraw rfl⟩

end Breakdown

end CodeQuality
