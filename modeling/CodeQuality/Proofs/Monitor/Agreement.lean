import CodeQuality.Proofs.Monitor.Session

/-!
# The history, the trend and the debts of a run agree

A run computes the end of the history three times: once when its snapshot is recorded
(`Monitor.record`), and twice before there is a snapshot, as a timeline of scores that is built
anew (`Monitor.scoresWith`) and as a list of debts that is cut open at the instant of the run
(`Monitor.debtsWith`). `Monitor.trends_of_history`: all three are the same.

Each of them is `Timeline.newest` of `Timeline.place`, seen through a different projection of the
snapshots. The timeline of scores needs that the history is sorted and bounded, since it puts the
scores in again one after the other.
-/

namespace CodeQuality.Monitor

open Scalar Timeline

variable {α : Type} [Scalar α] {m : Monitor α} {now : Instant} {snapshot : Snapshot α}

theorem entries_record (m : Monitor α) (snapshot : Snapshot α) :
    (m.record snapshot).history.entries =
      newest m.config.history.retention (place snapshot m.history.entries) := rfl

theorem entries_scoresWith (m : Monitor α) (now : Instant) (score : α) :
    (m.scoresWith now score).entries =
      newest m.config.history.retention
        (place ⟨now, hundredths score⟩ (m.history.entries.map Snapshot.scorePoint)) := by
  have hchron : Chronological (m.history.entries.map Snapshot.scorePoint) :=
    List.pairwise_map.2 m.history.sorted
  -- the history is in order already, so that sorting its scores anew does not move them
  rw [scoresWith, entries_ofList, ← place_inOrder, inOrder_eq_self hchron]

theorem values_scoresWith {score : α} (hnow : snapshot.instant = now)
    (hscore : snapshot.score = hundredths score) :
    (m.scoresWith now score).values = (m.record snapshot).history.entries.map (·.score) := by
  have hpoint : (⟨now, hundredths score⟩ : Point α) = snapshot.scorePoint := by
    rw [Snapshot.scorePoint, hnow, hscore]
  have hplace : place snapshot.scorePoint (m.history.entries.map Snapshot.scorePoint) =
      (place snapshot m.history.entries).map Snapshot.scorePoint :=
    (map_place Snapshot.scorePoint (fun _ => rfl) snapshot m.history.entries).symm
  rw [values, entries_scoresWith, hpoint, hplace, entries_record, newest, newest, ← map_latest,
    List.map_map]
  rfl

theorem debtsWith_eq {hours : α} (hnow : snapshot.instant = now)
    (hhours : snapshot.debt.hours = hundredths hours) :
    m.debtsWith now hours = (m.record snapshot).history.entries.map (·.debt.hours) := by
  subst hnow
  -- the debts are cut open where the snapshot takes its place
  rw [entries_record, newest, map_latest, place_eq_append, List.map_append, List.map_cons, hhours]
  rfl

/-- **A run is told the trends of the history that it leaves behind.** Wherever its instant falls
among those of the history, the trend of its scores and the trend of its debts are those of the
snapshots that the history holds afterwards. -/
theorem trends_of_history {as : List (Analysis α)} {files : List (FileMeasurement α)}
    {report : Report α} {m' : Monitor α} (h : m.evaluate as files now = .ok (report, m')) :
    report.snapshot.trend =
        (Trend.ofScores m.config.history.window (m'.history.entries.map (·.score))).rounded ∧
      report.snapshot.debt.trend = .of (m'.history.entries.map (·.debt.hours)) := by
  obtain ⟨breakdown, -, hreport, rfl⟩ := evaluate_eq_ok_iff.1 h
  have hinstant : report.snapshot.instant = now := by rw [hreport]; rfl
  have hscore : report.snapshot.score = hundredths breakdown.overall := by rw [hreport]; rfl
  constructor
  · rw [← values_scoresWith hinstant hscore, hreport]
    rfl
  · rw [← debtsWith_eq hinstant (by rw [hreport]; rfl), hreport]
    rfl

/-- A run between two others, on a history of two that drops one of them. -/
theorem trends_of_history_between :
    ∃ m₀ : Monitor Float, resume { Config.standard with history := ⟨10, 2⟩ } [] = .ok m₀ ∧
      ∃ report m',
        (m₀.run [.evaluate [] [] ⟨1, 0⟩, .evaluate [] [] ⟨3, 0⟩]).evaluate [] [] ⟨2, 0⟩ =
          .ok (report, m') ∧
        report.snapshot.trend =
          (Trend.ofScores (m₀.run [.evaluate [] [] ⟨1, 0⟩, .evaluate [] [] ⟨3, 0⟩]).config.history.window
            (m'.history.entries.map (·.score))).rounded ∧
        report.snapshot.debt.trend = .of (m'.history.entries.map (·.debt.hours)) := by
  obtain ⟨m₀, hm₀⟩ := exists_resume { Config.standard with history := ⟨10, 2⟩ } fault?_standard []
  obtain ⟨report, m', h⟩ :=
    (m₀.run [.evaluate [] [] ⟨1, 0⟩, .evaluate [] [] ⟨3, 0⟩]).exists_evaluate_nil ⟨2, 0⟩
  exact ⟨m₀, hm₀, report, m', h, trends_of_history h⟩

end CodeQuality.Monitor
