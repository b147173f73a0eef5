import CodeQuality.Proofs.Monitor.Agreement
import CodeQuality.Proofs.Monitor.Answers
import CodeQuality.Proofs.Monitor.Figures
import CodeQuality.Proofs.Monitor.Labels
import CodeQuality.Proofs.Wire.Snapshots

/-!
# Which snapshots have only numbers

`Monitor.numbers_finite_iff`: of a monitor that starts without history, after any runs, a further run
stores a snapshot of finite numbers exactly if the means of the reported complexities do not overflow
at two decimals, no measured file has an undefined index, and the target is not undefined while the
score improves. Everything else is finite: the overall score whatever the metrics, and the trend since
the scores in the history have two decimals (`Monitor.run_spaced`).
-/

namespace CodeQuality

open Scalar Binary64

/-- What a run scores is counted in 64 bits, and its files were measured. -/
structure Fits (threshold : ℕ) (as : List (Analysis Float)) (files : List (FileMeasurement Float)) :
    Prop where
  analyses : (Monitor.analysesOf threshold as files).length < UInt64.size
  issues : ((Monitor.analysesOf threshold as files).flatMap (·.issues)).length < UInt64.size
  files : Measured files

/-- A call that runs what fits. -/
inductive Call.Fits (threshold : ℕ) : Call Float → Prop
  | evaluate {as files now} (h : CodeQuality.Fits threshold as files) :
    Call.Fits threshold (.evaluate as files now)

namespace Monitor

variable {m m' : Monitor Float} {as : List (Analysis Float)} {files : List (FileMeasurement Float)}
  {now : Instant} {report : Report Float}

/-! ## Runs that are accepted -/

theorem scorable_of_evaluate (hfits : Fits m.config.threshold as files)
    (h : m.evaluate as files now = .ok (report, m')) :
    Scorable (analysesOf m.config.threshold as files) :=
  ⟨exists_evaluate_iff.1 ⟨report, m', h⟩, hfits.analyses, hfits.issues⟩

theorem overall_of_evaluate (hfits : Fits m.config.threshold as files)
    (h : m.evaluate as files now = .ok (report, m')) :
    ∃ r, Denotes report.breakdown.overall r ∧ 0 ≤ r ∧ r ≤ 100 := by
  have hscorable := scorable_of_evaluate hfits h
  rw [(evaluate_eq_ok h).1]
  exact Breakdown.denotes_overall (Option.isNone_iff_eq_none.1 m.weights_sound) hscorable

/-! ## Scores in the history -/

theorem after_spaced (h : ∀ s ∈ m.history.entries, Spaced s.score 7 (-60)) {call : Call Float}
    (hcall : call.Fits m.config.threshold) :
    ∀ s ∈ (m.after call).history.entries, Spaced s.score 7 (-60) := by
  cases hcall with
  | @evaluate as files now hfits =>
    cases hresult : m.evaluate as files now with
    | error e =>
      rw [after, hresult]
      exact h
    | ok result =>
      obtain ⟨report, m'⟩ := result
      obtain ⟨r, hr, hr0, hr100⟩ := overall_of_evaluate hfits hresult
      obtain ⟨breakdown, -, rfl, rfl⟩ := evaluate_eq_ok_iff.1 hresult
      rw [after, hresult]
      -- an old snapshot, or the new one, whose score has just been rounded
      intro s hs
      rcases Timeline.mem_place.1 (List.mem_of_mem_drop hs) with rfl | hs
      · exact spaced_hundredths hr hr0 hr100
      · exact h s hs

/-- After any runs the history holds scores at two decimals. -/
theorem run_spaced {calls : List (Call Float)} (h : ∀ s ∈ m.history.entries, Spaced s.score 7 (-60))
    (hcalls : ∀ call ∈ calls, call.Fits m.config.threshold) :
    ∀ s ∈ (m.run calls).history.entries, Spaced s.score 7 (-60) := by
  -- from any monitor, since the later calls start from another one
  induction calls generalizing m with
  | nil => exact h
  | cons call calls ih =>
    refine ih (after_spaced h (hcalls call List.mem_cons_self)) ?_
    rw [after_config]
    exact fun call' hcall' => hcalls call' (List.mem_cons_of_mem _ hcall')

theorem bounded_trendWith (h : ∀ s ∈ m.history.entries, Spaced s.score 7 (-60))
    (hretention : m.config.history.retention < UInt64.size) {score : Float} {r : ℚ}
    (hscore : Denotes score r) (h0 : 0 ≤ r) (h100 : r ≤ 100) (now : Instant) :
    (m.trendWith now score).Bounded := by
  apply Trend.bounded_ofScores
  · have hbounded := (m.scoresWith now score).bounded
    rw [Timeline.values, List.length_map]
    have hsize : UInt64.size = 2 ^ 64 := rfl
    omega
  · intro y hy
    obtain ⟨point, hpoint, rfl⟩ := List.mem_map.1 hy
    rw [entries_scoresWith] at hpoint
    rcases Timeline.mem_place.1 (List.mem_of_mem_drop hpoint) with rfl | hpoint
    · exact spaced_hundredths hscore h0 h100
    · obtain ⟨s, hs, rfl⟩ := List.mem_map.1 hpoint
      exact h s hs

/-! ## The snapshot of a run -/

theorem linesOfCode_lt (as : List (Analysis Float)) (hfiles : Measured files) :
    linesOfCode as files < UInt64.size := by
  unfold linesOfCode
  split
  · exact UInt64.toNat_lt_size _
  · exact (wrappedTotal_of_lt hfiles.lines).trans_lt hfiles.lines

theorem finite_profile_iff {threshold : ℕ} (hfiles : Measured files)
    (hscorable : Scorable (analysesOf threshold as files)) :
    (∀ x ∈ (Profile.of (analysesOf threshold as files) files).numbers,
        Scalar.isFinite (hundredths x) = true) ↔
      (files = [] → Scalar.isFinite (complexityMean as Metric.averageComplexity * 100.0) = true ∧
        Scalar.isFinite (complexityMean as Metric.cognitiveComplexity * 100.0) = true) ∧
      ∀ f ∈ files, Scalar.isFinite f.maintainability = true := by
  cases files with
  | nil =>
    have hprofile := Profile.finite_ofAnalyses_iff (show Scorable as from hscorable)
    simpa [Profile.of, analysesOf] using hprofile
  | cons f fs =>
    have hprofile := Profile.finite_ofFiles_iff hfiles
    simpa [Profile.of] using hprofile

theorem finite_observe_iff (hspaced : ∀ s ∈ m.history.entries, Spaced s.score 7 (-60))
    (hretention : m.config.history.retention < UInt64.size) (hteam : m.config.teamSize < UInt32.size)
    (hfiles : Measured files) (hscorable : Scorable (analysesOf m.config.threshold as files))
    {breakdown : Breakdown Float} {r : ℚ} (hr : Denotes breakdown.overall r) (hr0 : 0 ≤ r)
    (hr100 : r ≤ 100) (now : Instant) :
    (∀ x ∈ (m.observe (analysesOf m.config.threshold as files) files now breakdown).numbers,
        Scalar.isFinite (hundredths x) = true) ↔
      (files = [] → Scalar.isFinite (complexityMean as Metric.averageComplexity * 100.0) = true ∧
        Scalar.isFinite (complexityMean as Metric.cognitiveComplexity * 100.0) = true) ∧
      (∀ f ∈ files, Scalar.isFinite f.maintainability = true) ∧
      (0.0 < (m.trendWith now breakdown.overall).velocity → Defined m.config.targetScore) := by
  obtain ⟨s, hs⟩ : ∃ s, m.observe (analysesOf m.config.threshold as files) files now breakdown = s :=
    ⟨_, rfl⟩
  have hscore := hr.within_of_nonneg (p := 7) hr0 (hr100.trans (by norm_num))
  have htrend : s.trend.Bounded := hs ▸ bounded_trendWith hspaced hretention hr hr0 hr100 now
  have hdebt : ∀ x ∈ s.debt.numbers, Within x 75 :=
    hs ▸ Debt.within_numbers hteam hscorable.issues (linesOfCode_lt _ hfiles)
  have hprofile := finite_profile_iff hfiles hscorable
  have hforecast := Forecast.finite_iff (t := m.config.targetScore) hscore htrend hdebt
  have hnumbers : s.numbers = breakdown.overall :: s.debt.numbers ++
      (Profile.of (analysesOf m.config.threshold as files) files).numbers ++ s.trend.numbers ++
      (Forecast.of (clampScore m.config.targetScore) breakdown.overall s.trend s.debt).numbers := by
    rw [← hs]
    rfl
  have hvelocity : (m.trendWith now breakdown.overall).velocity = s.trend.velocity := by
    rw [← hs]
    rfl
  rw [hs, hnumbers, hvelocity, ← hforecast, ← and_assoc, ← hprofile]
  constructor
  · intro hall
    exact ⟨fun x hx => hall x (by simp [hx]), fun x hx => hall x (by simp [hx])⟩
  · rintro ⟨hprofile', hforecast'⟩ x hx
    rcases List.mem_append.1 hx with hx | hx
    · rcases List.mem_append.1 hx with hx | hx
      · rcases List.mem_append.1 hx with hx | hx
        · rcases List.mem_cons.1 hx with rfl | hx
          · exact isFinite_hundredths hscore (by norm_num)
          · exact isFinite_hundredths (hdebt x hx) (by norm_num)
        · exact hprofile' x hx
      · exact isFinite_hundredths (htrend.numbers x hx) (by norm_num)
    · exact hforecast' x hx

theorem ofHistoryText_of_infinite {s : Snapshot Float} {x : Float} (hs : s ∈ m.history.entries)
    (hx : x ∈ s.profile.numbers) (hinfinite : ¬ Scalar.isFinite x = true) (config : Config Float) :
    ofHistoryText config m.historyText = .error .json := by
  have hread : (Json.read? m.historyText).bind (Json.list? Snapshot.ofJson?) = none := by
    rw [historyText, Json.read?_write Json.pretty_blank, Option.bind_some,
      Option.eq_none_iff_forall_ne_some]
    intro snapshots hsnapshots
    obtain ⟨s', hs'⟩ := Json.mem_of_list?_reread hsnapshots s hs
    obtain ⟨p, hp⟩ := Snapshot.profile_of_ofJson? hs'
    exact hinfinite (Profile.isFinite_of_ofJson? hp x hx)
  rw [ofHistoryText, hread]

/-- **When a stored snapshot has only finite numbers.** A run of a monitor that started without
history and has made any runs before, of what is counted in 64 bits and of files that were measured
with any coverage: the snapshot that it stores holds an infinite or undefined number exactly if, without
files, the mean of the average or the cognitive complexities that analyses report is infinite a
hundredfold, or a measured file has no maintainability index, or the score improves towards a target
that is undefined. With such a profile in it the history cannot be read any more. -/
theorem numbers_finite_iff {config : Config Float} {m₀ m' : Monitor Float}
    (hstart : start config = .ok m₀) (hretention : config.history.retention < UInt64.size)
    (hteam : config.teamSize < UInt32.size) {calls : List (Call Float)}
    (hcalls : ∀ call ∈ calls, call.Fits config.threshold) (hfits : Fits config.threshold as files)
    (h : (m₀.run calls).evaluate as files now = .ok (report, m')) :
    m' = (m₀.run calls).record report.snapshot ∧
      ((∀ x ∈ report.snapshot.numbers, Scalar.isFinite x = true) ↔
        (files = [] → Scalar.isFinite (complexityMean as Metric.averageComplexity * 100.0) = true ∧
          Scalar.isFinite (complexityMean as Metric.cognitiveComplexity * 100.0) = true) ∧
        (∀ f ∈ files, Scalar.isFinite f.maintainability = true) ∧
        (0.0 < ((m₀.run calls).trendWith now report.breakdown.overall).velocity →
          Defined config.targetScore)) ∧
      (report.snapshot ∈ m'.history.entries →
        (∃ x ∈ report.snapshot.profile.numbers, ¬ Scalar.isFinite x = true) →
          ∀ config', ofHistoryText config' m'.historyText = .error .json) := by
  obtain ⟨-, hconfig, hnone⟩ := start_eq_ok hstart
  have hempty : m₀.history.entries = [] := by
    rw [hnone.entries_eq, inOrder, List.mergeSort_nil]
    rfl
  have hspaced := run_spaced (m := m₀) (by simp [hempty]) (hconfig ▸ hcalls)
  have hrun : (m₀.run calls).config = config := (run_config m₀ calls).trans hconfig
  generalize m₀.run calls = m at h hspaced hrun ⊢
  subst hrun
  have hscorable := scorable_of_evaluate hfits h
  obtain ⟨r, hr, hr0, hr100⟩ := overall_of_evaluate hfits h
  -- of the runs before it is only used that the stored scores have two decimals
  have hfinite := finite_observe_iff hspaced hretention hteam hfits.files hscorable hr hr0 hr100 now
  obtain ⟨breakdown, -, rfl, hrecord⟩ := evaluate_eq_ok_iff.1 h
  refine ⟨hrecord, ?_, ?_⟩
  · rw [← hfinite, Snapshot.numbers_rounded, List.forall_mem_map]
  · rintro hmem ⟨x, hx, hinfinite⟩ config'
    exact ofHistoryText_of_infinite hmem hx hinfinite config'

theorem fits_nil {threshold : ℕ} (complexity : Float) :
    Fits threshold (scoredAnalyses complexity) [] :=
  ⟨show 4 < UInt64.size by decide, show 0 < UInt64.size by decide,
    ⟨nofun, by decide, by decide, by decide, nofun⟩⟩

/-- The second run of a monitor, with a score that improves towards a target of `90`. -/
theorem numbers_finite_iff_improving :
    ∃ m₀ report m', start .standard = .ok m₀ ∧
      (m₀.run [.evaluate (scoredAnalyses 40.0) [] ⟨0, 0⟩]).evaluate (scoredAnalyses 50.0) [] ⟨1, 0⟩ =
        .ok (report, m') ∧
      ∀ x ∈ report.snapshot.numbers, Scalar.isFinite x = true := by
  obtain ⟨m₀, hstart⟩ : ∃ m₀ : Monitor Float, start .standard = .ok m₀ :=
    exists_start_iff.2 fault?_standard
  have hsound : (Analysis.checkAll (scoredAnalyses 50.0)).isOk = true := by decide +kernel
  cases h : (m₀.run [.evaluate (scoredAnalyses 40.0) [] ⟨0, 0⟩]).evaluate (scoredAnalyses 50.0) []
      ⟨1, 0⟩ with
  | error e =>
    have hcheck : Analysis.checkAll (scoredAnalyses 50.0) = .error e := evaluate_eq_error_iff.1 h
    rw [hcheck] at hsound
    nomatch hsound
  | ok result =>
    obtain ⟨report, m'⟩ := result
    refine ⟨m₀, report, m', hstart, h, ?_⟩
    have htarget : Denotes 90.0 90 := denotes_literal (n := 90) (by norm_num)
    refine (numbers_finite_iff hstart (by decide) (by decide) ?_ (fits_nil 50.0) h).2.1.2
      ⟨fun _ => by decide +kernel, nofun, fun _ => htarget.defined⟩
    intro call hcall
    rw [List.mem_singleton.1 hcall]
    exact .evaluate (fits_nil 40.0)

/-- An analysis with an average that is finite, unlike its hundredfold. -/
def overComplex : Analysis Float :=
  ((Analysis.empty (some .complexity)).withScore 50.0).withMetric Metric.averageComplexity 1e307

/-- The average is stored as an infinite number, and the history cannot be read any more. -/
theorem average_overflows :
    ∃ report m', fresh.evaluate [overComplex] [] ⟨1709294400, 0⟩ = .ok (report, m') ∧
      report.snapshot ∈ m'.history.entries ∧
      Scalar.isFinite report.snapshot.profile.averageCyclomatic = false ∧
      ofHistoryText .standard m'.historyText = .error .json := by
  have hresult : (report? fresh [overComplex] ⟨1709294400, 0⟩).map
      (fun r => Scalar.isFinite r.snapshot.profile.averageCyclomatic) = some false := by
    decide +kernel
  rw [report?] at hresult
  cases h : fresh.evaluate [overComplex] [] ⟨1709294400, 0⟩ with
  | error e =>
    rw [h] at hresult
    nomatch hresult
  | ok result =>
    obtain ⟨report, m'⟩ := result
    rw [h] at hresult
    have hinfinite : Scalar.isFinite report.snapshot.profile.averageCyclomatic = false :=
      Option.some.inj hresult
    obtain ⟨breakdown, -, -, rfl⟩ := evaluate_eq_ok_iff.1 h
    have hmem : report.snapshot ∈ (fresh.record report.snapshot).history.entries :=
      List.mem_singleton.2 rfl
    have haverage : report.snapshot.profile.averageCyclomatic ∈ report.snapshot.profile.numbers := by
      simp [Profile.numbers]
    exact ⟨report, _, rfl, hmem, hinfinite,
      ofHistoryText_of_infinite hmem haverage (Bool.eq_false_iff.1 hinfinite) .standard⟩

end Monitor

end CodeQuality
