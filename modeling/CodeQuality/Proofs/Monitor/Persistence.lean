import CodeQuality.Proofs.Monitor.Answers
import CodeQuality.Proofs.Wire.Snapshots

/-!
# Histories outlive their monitor

`Monitor.restore_historyText`: a monitor that starts with the written history of another one, and
with its configuration, cannot be told from it. With another retention it keeps the newest of the
snapshots.

The text of the history is read as its snapshots (`Monitor.ofHistoryText_eq_resume`), which are put
into a timeline again one after the other. They stand in the order of their instants already, so that
none changes its place, those of one instant included (`Monitor.resume_entries`).
-/

namespace CodeQuality

theorem Timeline.ext_entries {τ : Type} [Timed τ] {capacity : Nat} {t t' : Timeline τ capacity}
    (h : t.entries = t'.entries) : t = t' := by
  cases t
  cases t'
  cases h
  rfl

namespace Monitor

theorem snapshotsOf?_historyText {m : Monitor Float}
    (h : ∀ s ∈ m.history.entries, s.Persistable) :
    snapshotsOf? m.historyText = some m.history.entries := by
  rw [snapshotsOf?, historyText, Json.read?_write Json.pretty_blank, Option.bind_some]
  exact Json.list?_reread fun s hs => Snapshot.ofJson?_reread (h s hs)

theorem ofHistoryText_eq_resume {m : Monitor Float} (h : ∀ s ∈ m.history.entries, s.Persistable)
    (config : Config Float) :
    ofHistoryText config m.historyText = resume config m.history.entries := by
  have hsnapshots := snapshotsOf?_historyText h
  rw [snapshotsOf?] at hsnapshots
  rw [ofHistoryText, hsnapshots]

variable {α : Type} [Scalar α]

theorem entries_of_resume {m m' : Monitor α} {config : Config α}
    (h : resume config m.history.entries = .ok m') :
    m'.history.entries = latest (max config.history.retention 1) m.history.entries := by
  obtain ⟨rfl, hretains⟩ := resume_eq_ok h
  rw [hretains, inOrder_eq_self m.history.sorted, Timeline.newest]

/-- A monitor that starts with the configuration and the history of another one is equal to it. -/
theorem resume_entries (m : Monitor α) : resume m.config m.history.entries = .ok m := by
  obtain ⟨m', hm'⟩ := exists_resume m.config (Option.isNone_iff_eq_none.1 m.weights_sound)
    m.history.entries
  have hentries := entries_of_resume hm'
  rw [latest_of_length_le m.history.bounded] at hentries
  obtain ⟨hconfig, -⟩ := resume_eq_ok hm'
  rw [hm']
  obtain ⟨config, hsound, history⟩ := m
  obtain ⟨config', hsound', history'⟩ := m'
  dsimp only at hconfig hentries
  subst hconfig
  rw [Timeline.ext_entries hentries]

/-- **A written history restores its monitor.** If the snapshots of a history can be persisted, then
from its text and the same configuration starts a monitor with the same history in the same order,
which answers every later sequence of calls alike. With any sound configuration the text gives the
newest snapshots, as many as are retained. -/
theorem restore_historyText (m : Monitor Float) (h : ∀ s ∈ m.history.entries, s.Persistable) :
    (∃ m', ofHistoryText m.config m.historyText = .ok m' ∧
      m'.history.entries = m.history.entries ∧ ∀ calls, m'.answers calls = m.answers calls) ∧
    ∀ config : Config Float, Weights.fault? config.weights = none →
      ∃ m', ofHistoryText config m.historyText = .ok m' ∧ m'.config = config ∧
        m'.history.entries = latest (max config.history.retention 1) m.history.entries := by
  constructor
  · refine ⟨m, ?_, rfl, fun _ => rfl⟩
    rw [ofHistoryText_eq_resume h, resume_entries]
  · intro config hsound
    obtain ⟨m', hm'⟩ := exists_resume config hsound m.history.entries
    refine ⟨m', ?_, (resume_eq_ok hm').1, entries_of_resume hm'⟩
    rw [ofHistoryText_eq_resume h, hm']

end Monitor

/-- A snapshot of an improving code base. -/
def Snapshot.sample : Snapshot Float where
  score := 87.35
  debt := ⟨12.5, 1.25, 3.0, 0.02, 0.31, .decreasing⟩
  profile := ⟨71.4, 3.5, 4.25, 12000, 14, .b⟩
  trend :=
    { direction := .improving
      velocity := 1.5
      volatility := 0.71
      improvementRate := 66.67
      regressionRisk := 7.1
      stability := 85.8
      predicted := 88.85
      projections := [⟨1, 88.85, 92.9⟩, ⟨2, 90.35, 92.9⟩] }
  health := ⟨3, 1, 1, 1, 2, 0, .b⟩
  forecast :=
    { score := 99.85
      confidence := 88.64
      timeToTarget := some 1.77
      effort := 8.75
      risks := [Risk.heavyDebt.text]
      recommendations := ["Fix \"a\" first\n"] }
  instant := ⟨1709294400, 250000000⟩
  version := Snapshot.currentVersion

theorem Config.isNone_fault?_standard :
    (Weights.fault? (Config.standard : Config Float).weights).isNone :=
  Option.isNone_iff_eq_none.2 Monitor.fault?_standard

/-- Two snapshots of one instant, the first from an earlier version and without a time to target. -/
def Monitor.remembering : Monitor Float where
  config := .standard
  weights_sound := Config.isNone_fault?_standard
  history :=
    { entries :=
        [{ Snapshot.sample with
            version := "0.2.0"
            forecast := { Snapshot.sample.forecast with timeToTarget := none } },
          Snapshot.sample]
      sorted := List.pairwise_pair.2 (Instant.le_refl _)
      bounded := Nat.le_of_ble_eq_true rfl }

theorem Monitor.restore_historyText_remembering :
    (∀ s ∈ remembering.history.entries, s.Persistable) ∧
      (∃ m', ofHistoryText .standard remembering.historyText = .ok m' ∧
        m'.history.entries = remembering.history.entries ∧
        ∀ calls, m'.answers calls = remembering.answers calls) ∧
      ∃ m', ofHistoryText { Config.standard with history := ⟨10, 1⟩ } remembering.historyText = .ok m' ∧
        m'.history.entries = [Snapshot.sample] := by
  have h : ∀ s ∈ remembering.history.entries, s.Persistable := by
    intro s hs
    rcases List.mem_cons.1 hs with rfl | hs
    · exact ⟨by decide +kernel, by decide, by decide, ⟨by decide, by decide⟩⟩
    · rw [List.mem_singleton.1 hs]
      exact ⟨by decide +kernel, by decide, by decide, ⟨by decide, by decide⟩⟩
  obtain ⟨hsame, hconfig⟩ := restore_historyText remembering h
  obtain ⟨m', hm', -, hentries⟩ := hconfig { Config.standard with history := ⟨10, 1⟩ } fault?_standard
  exact ⟨h, hsame, m', hm', hentries⟩

end CodeQuality
