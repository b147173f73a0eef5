import CodeQuality.Proofs.Analysis.Malformed
import CodeQuality.Proofs.Monitor.Session

/-!
# Answers of a monitor, and refused runs

`Monitor.refused_iff_malformed`: a run is refused exactly if one of its analyses is malformed, the
analysis that sums up the measured files included. The refusal reports the first defect of the first
malformed one, and the session goes on as if the run had never been asked for: every later call has
the same answer and leaves the same monitor behind.

The refusal is that of `Analysis.checkAll` (`Monitor.evaluate_eq_error_iff`), since nothing else in a
run can fail.
-/

namespace CodeQuality.Monitor

variable {α : Type} [Scalar α]

/-! ## Answers -/

/-- What is told in answer to a call: nothing for a snapshot, and for a run its report or the error
that refuses it. -/
def answer (m : Monitor α) : Call α → Option (Except Error (Report α))
  | .record _ => none
  | .evaluate as files now => some ((m.evaluate as files now).map Prod.fst)

/-- What is told in answer to a sequence of calls. -/
def answers (m : Monitor α) : List (Call α) → List (Option (Except Error (Report α)))
  | [] => []
  | call :: calls => m.answer call :: (m.after call).answers calls

/-! ## Refusals -/

theorem calculate_eq_error_iff {w : Weights α} {as : List (Analysis α)} {e : Error} :
    Breakdown.calculate w as = .error e ↔ Analysis.checkAll as = .error e := by
  rw [Breakdown.calculate]
  cases Analysis.checkAll as with
  | error e' => simp [bind, Except.bind]
  | ok _ => simp [bind, Except.bind, pure, Except.pure]

theorem evaluate_eq_error_iff {m : Monitor α} {as : List (Analysis α)}
    {files : List (FileMeasurement α)} {now : Instant} {e : Error} :
    m.evaluate as files now = .error e ↔
      Analysis.checkAll (analysesOf m.config.threshold as files) = .error e := by
  rw [← calculate_eq_error_iff (w := m.config.weights), evaluate]
  cases Breakdown.calculate m.config.weights (analysesOf m.config.threshold as files) with
  | error e' => simp [bind, Except.bind]
  | ok breakdown => simp [bind, Except.bind, pure, Except.pure]

theorem evaluate_eq_ok {m m' : Monitor α} {as : List (Analysis α)} {files : List (FileMeasurement α)}
    {now : Instant} {report : Report α} (h : m.evaluate as files now = .ok (report, m')) :
    report.breakdown = .ofAnalyses m.config.weights (analysesOf m.config.threshold as files) ∧
      report.snapshot =
        (m.observe (analysesOf m.config.threshold as files) files now report.breakdown).rounded := by
  obtain ⟨breakdown, hbreakdown, rfl, -⟩ := evaluate_eq_ok_iff.1 h
  exact ⟨(Breakdown.calculate_eq_ok_iff.1 hbreakdown).2, rfl⟩

theorem exists_evaluate_iff {m : Monitor α} {as : List (Analysis α)} {files : List (FileMeasurement α)}
    {now : Instant} :
    (∃ report m', m.evaluate as files now = .ok (report, m')) ↔
      ∀ a ∈ analysesOf m.config.threshold as files, ¬ a.Malformed := by
  constructor
  · rintro ⟨report, m', h⟩
    obtain ⟨breakdown, hbreakdown, -⟩ := evaluate_eq_ok_iff.1 h
    exact (Breakdown.calculate_eq_ok_iff.1 hbreakdown).1
  · intro h
    exact ⟨_, _, evaluate_eq_ok_iff.2 ⟨_, Breakdown.calculate_eq_ok_iff.2 ⟨h, rfl⟩, rfl, rfl⟩⟩

/-- **Only malformed runs are refused, and a refused run leaves no trace.** Of what a run scores, which
is the given analyses and the one that sums up the measured files, the first malformed one is refused
for its first defect. Whatever calls follow, they are answered and change the monitor as if they were
made without the refused run. -/
theorem refused_iff_malformed (m : Monitor α) (as : List (Analysis α))
    (files : List (FileMeasurement α)) (now : Instant) :
    ((∃ e, m.evaluate as files now = .error e) ↔
      ∃ a ∈ analysesOf m.config.threshold as files, a.Malformed) ∧
    (∀ e, m.evaluate as files now = .error e ↔
      ∃ before a after d, analysesOf m.config.threshold as files = before ++ a :: after ∧
        (∀ b ∈ before, ¬ b.Malformed) ∧ a.defects.head? = some d ∧ e = d.error before.length) ∧
    ∀ e, m.evaluate as files now = .error e → ∀ later : List (Call α),
      m.run (.evaluate as files now :: later) = m.run later ∧
        m.answers (.evaluate as files now :: later) = some (.error e) :: m.answers later := by
  refine ⟨?_, fun e => ?_, fun e he later => ?_⟩
  · simp only [evaluate_eq_error_iff]
    exact Analysis.exists_checkAll_eq_error_iff
  · rw [evaluate_eq_error_iff]
    exact Analysis.checkAll_eq_error_iff
  · -- a refused call hands the monitor on as it is
    have hafter : m.after (.evaluate as files now) = m := by
      simp only [after, he]
    have hanswer : m.answer (.evaluate as files now) = some (.error e) := by
      simp only [answer, he]
      rfl
    constructor
    · rw [run, List.foldl_cons, hafter]
      rfl
    · rw [answers, hanswer, hafter]

/-- An analysis of a metric without a name and without a number, and of an issue without a message. -/
def unnamed : Analysis Float :=
  ((Analysis.empty (some .lint)).withMetric " " (0.0 / 0.0)).withIssues
    [{ severity := .warning, file := "a.ts", message := "" }]

/-- Of three defects in the second analysis the name of the metric is reported. -/
theorem refused_iff_malformed_unnamed :
    ∃ m : Monitor Float, start Config.standard = .ok m ∧
      ∀ later : List (Call Float),
        m.run (.evaluate [.empty none, unnamed] [] ⟨0, 0⟩ :: later) = m.run later ∧
          m.answers (.evaluate [.empty none, unnamed] [] ⟨0, 0⟩ :: later) =
            some (.error (.validation "results[1].metrics" "metric names must not be empty")) ::
              m.answers later := by
  obtain ⟨m, hm⟩ : ∃ m : Monitor Float, start Config.standard = .ok m :=
    exists_start_iff.2 fault?_standard
  obtain ⟨-, hreason, htrace⟩ := refused_iff_malformed m [.empty none, unnamed] [] ⟨0, 0⟩
  have hsound : ¬ (Analysis.empty none : Analysis Float).Malformed :=
    (Analysis.not_malformed_iff _).2 rfl
  have hdefect : unnamed.defects.head? = some .metricName := by
    rw [← Analysis.defect?_eq_head?]
    decide +kernel
  have hrefused := (hreason ((Defect.metricName).error 1)).2
    ⟨[.empty none], unnamed, [], .metricName, rfl, by simpa using hsound, hdefect, rfl⟩
  have herror : Defect.metricName.error 1 =
      .validation "results[1].metrics" "metric names must not be empty" := by decide +kernel
  rw [herror] at hrefused
  exact ⟨m, hm, htrace _ hrefused⟩

end CodeQuality.Monitor
