import CodeQuality.Proofs.Monitor.Agreement
import CodeQuality.Proofs.Monitor.Answers

/-!
# Monitors that nobody can tell apart

`Monitor.answers_retaining`: how many snapshots a history keeps cannot be told from the answers, as
long as it keeps as many as the trends look at. The snapshots that one of two monitors drops early
and the other does not are read by no later run.

A run reads of the snapshots only their marks: instant, score and debt (`Monitor.trendWith_eq`,
`Monitor.debtTrendWith_eq`). Two monitors are alike (`Monitor.Alike`) if their marks are the newest of
one common sequence, up to the retention of each, and neither retention cuts into what the trends look
at, or both cut at the same place. A call is answered alike by monitors that are alike
(`Alike.answer`), and leaves them alike (`Alike.after`), because what an arrival pushes out of the
newest marks it would push out of the whole sequence.
-/

namespace CodeQuality

open Scalar Timeline

variable {α : Type} [Scalar α]

/-! ## What the trends look at -/

theorem Trend.ofScores_latest {window n : Nat} (h : max window leastScores ≤ n) (scores : List α) :
    ofScores window (latest n scores) = ofScores window scores := by
  have hleast : leastScores ≤ n := Nat.le_trans (Nat.le_max_right _ _) h
  by_cases hlen : scores.length < leastScores
  · rw [latest_of_length_le (by omega)]
  · have hlen' : ¬ (latest n scores).length < leastScores := by
      rw [length_latest]
      omega
    rw [ofScores, if_neg hlen', ofScores, if_neg hlen, recent, latest_latest h, recent]

theorem DebtTrend.of_latest {n : Nat} (h : 3 ≤ n) (history : List α) :
    of (latest n history) = of history := by
  by_cases hlen : history.length < 3
  · rw [latest_of_length_le (by omega)]
  · have hlen' : ¬ (latest n history).length < 3 := by
      rw [length_latest]
      omega
    rw [of, if_neg hlen', of, if_neg hlen, latest_latest h]

/-! ## Marks -/

/-- What later runs read of a snapshot. -/
structure Mark (α : Type) where
  instant : Instant
  score : α
  hours : α

instance (α : Type) : Timed (Mark α) := ⟨Mark.instant⟩

def Mark.point (μ : Mark α) : Point α := ⟨μ.instant, μ.score⟩

def Snapshot.mark (s : Snapshot α) : Mark α := ⟨s.instant, s.score, s.debt.hours⟩

namespace Monitor

/-- What later runs read of the history. -/
def marks (m : Monitor α) : List (Mark α) := m.history.entries.map Snapshot.mark

/-- The marks with a further one in its place, as many as the history holds. -/
def marksWith (m : Monitor α) (μ : Mark α) : List (Mark α) :=
  newest m.config.history.retention (place μ m.marks)

theorem marks_record (m : Monitor α) (s : Snapshot α) : (m.record s).marks = m.marksWith s.mark := by
  rw [marks, entries_record, newest, map_latest, map_place Snapshot.mark fun _ => rfl]
  rfl

theorem trendWith_eq (m : Monitor α) (now : Instant) (score hours : α) :
    m.trendWith now score =
      .ofScores m.config.history.window ((m.marksWith ⟨now, hundredths score, hours⟩).map (·.score)) := by
  have hpoints : m.history.entries.map Snapshot.scorePoint = m.marks.map Mark.point := by
    rw [marks, List.map_map]
    rfl
  have hplace : place (⟨now, hundredths score⟩ : Point α) (m.marks.map Mark.point) =
      (place ⟨now, hundredths score, hours⟩ m.marks).map Mark.point :=
    (map_place Mark.point (fun _ => rfl) ⟨now, hundredths score, hours⟩ m.marks).symm
  rw [trendWith, values, entries_scoresWith, hpoints, hplace, newest, ← map_latest, List.map_map]
  rfl

theorem debtTrendWith_eq (m : Monitor α) (now : Instant) (score hours : α) :
    m.debtTrendWith now hours = .of ((m.marksWith ⟨now, score, hundredths hours⟩).map (·.hours)) := by
  rw [debtTrendWith, debtsWith, marksWith, newest, map_latest, place_eq_append, List.map_append,
    List.map_cons, marks, List.takeWhile_map, List.dropWhile_map, List.map_map, List.map_map]
  rfl

end Monitor

/-! ## Alike monitors -/

/-- The configuration with another retention. -/
def Config.retaining (config : Config α) (retention : Nat) : Config α :=
  { config with history := { config.history with retention } }

namespace Monitor

variable {m m' : Monitor α}

/-- Monitors whose answers cannot differ: they are set up alike, what they keep of one sequence of
marks is the newest, and where they keep different numbers both keep as many as the trends look at. -/
structure Alike (m m' : Monitor α) : Prop where
  config : m'.config = m.config.retaining m'.config.history.retention
  marks : ∃ ms, Chronological ms ∧ m.marks = newest m.config.history.retention ms ∧
    m'.marks = newest m'.config.history.retention ms
  enough : m.config.history.retention = m'.config.history.retention ∨
    max m.config.history.window 3 ≤ m.config.history.retention ∧
      max m.config.history.window 3 ≤ m'.config.history.retention

namespace Alike

theorem shared {β : Type} (h : Alike m m') (setting : Config α → β)
    (hsetting : ∀ config retention, setting (config.retaining retention) = setting config) :
    setting m'.config = setting m.config := by
  rw [h.config, hsetting]

theorem marksWith (h : Alike m m') (μ : Mark α) :
    ∃ ms, Chronological ms ∧ m.marksWith μ = newest m.config.history.retention ms ∧
      m'.marksWith μ = newest m'.config.history.retention ms := by
  obtain ⟨ms, hchron, hms, hms'⟩ := h.marks
  refine ⟨place μ ms, place_chronological μ hchron, ?_, ?_⟩
  · rw [Monitor.marksWith, hms, newest_place_newest _ _ hchron]
  · rw [Monitor.marksWith, hms', newest_place_newest _ _ hchron]

theorem trends_newest (h : Alike m m') (ms : List (Mark α)) :
    Trend.ofScores m.config.history.window
          ((newest m.config.history.retention ms).map (·.score)) =
        .ofScores m'.config.history.window
          ((newest m'.config.history.retention ms).map (·.score)) ∧
      DebtTrend.of ((newest m.config.history.retention ms).map (·.hours)) =
        .of ((newest m'.config.history.retention ms).map (·.hours)) := by
  have hwindow : m'.config.history.window = m.config.history.window :=
    h.shared (·.history.window) fun _ _ => rfl
  rw [hwindow]
  rcases h.enough with heq | ⟨hr, hr'⟩
  · rw [heq]
    exact ⟨rfl, rfl⟩
  · -- neither retention drops a mark that a trend looks at
    have hthree : 3 ≤ max m.config.history.window 3 := Nat.le_max_right _ _
    replace hr := Nat.le_trans hr (Nat.le_max_left _ 1)
    replace hr' := Nat.le_trans hr' (Nat.le_max_left _ 1)
    simp only [newest, map_latest]
    rw [Trend.ofScores_latest hr, Trend.ofScores_latest hr', DebtTrend.of_latest (Nat.le_trans hthree hr),
      DebtTrend.of_latest (Nat.le_trans hthree hr')]
    exact ⟨rfl, rfl⟩

theorem observe (h : Alike m m') (as : List (Analysis α)) (files : List (FileMeasurement α))
    (now : Instant) (breakdown : Breakdown α) :
    m.observe as files now breakdown = m'.observe as files now breakdown := by
  obtain ⟨ms, -, hms, hms'⟩ := h.marksWith
    ⟨now, hundredths breakdown.overall, hundredths (totalHours (as.flatMap (·.issues)))⟩
  obtain ⟨hscores, hdebts⟩ := h.trends_newest ms
  have htrend : m.trendWith now breakdown.overall = m'.trendWith now breakdown.overall := by
    rw [trendWith_eq, hms, hscores, ← hms', ← trendWith_eq]
  have hdebt : m.debtTrendWith now (totalHours (as.flatMap (·.issues))) =
      m'.debtTrendWith now (totalHours (as.flatMap (·.issues))) := by
    rw [debtTrendWith_eq, hms, hdebts, ← hms', ← debtTrendWith_eq]
  have hteam : m'.config.teamSize = m.config.teamSize := h.shared (·.teamSize) fun _ _ => rfl
  have htarget : m'.config.target = m.config.target := h.shared (·.target) fun _ _ => rfl
  simp only [Monitor.observe, htrend, hdebt, hteam, htarget]

theorem record (h : Alike m m') {s s' : Snapshot α} (hs : s.mark = s'.mark) :
    Alike (m.record s) (m'.record s') := by
  refine ⟨h.config, ?_, h.enough⟩
  obtain ⟨ms, hchron, hms, hms'⟩ := h.marksWith s.mark
  exact ⟨ms, hchron, (marks_record m s).trans hms, by rw [marks_record, ← hs, hms']; rfl⟩

/-- Alike monitors answer a run alike, and it leaves them alike. -/
theorem evaluate (h : Alike m m') (as : List (Analysis α)) (files : List (FileMeasurement α))
    (now : Instant) :
    (∃ e, m.evaluate as files now = .error e ∧ m'.evaluate as files now = .error e) ∨
      ∃ report, m.evaluate as files now = .ok (report, m.record report.snapshot) ∧
        m'.evaluate as files now = .ok (report, m'.record report.snapshot) := by
  have hthreshold : m'.config.threshold = m.config.threshold := h.shared (·.threshold) fun _ _ => rfl
  have hweights : m'.config.weights = m.config.weights := h.shared (·.weights) fun _ _ => rfl
  simp only [Monitor.evaluate, hthreshold, hweights]
  cases Breakdown.calculate m.config.weights (analysesOf m.config.threshold as files) with
  | error e => exact .inl ⟨e, rfl, rfl⟩
  | ok breakdown =>
    refine .inr ⟨_, rfl, ?_⟩
    rw [h.observe]
    rfl

theorem answer (h : Alike m m') (call : Call α) : m.answer call = m'.answer call := by
  cases call with
  | record s => rfl
  | evaluate as files now =>
    rcases h.evaluate as files now with ⟨e, he, he'⟩ | ⟨report, hr, hr'⟩
    · rw [Monitor.answer, he, Monitor.answer, he']
    · rw [Monitor.answer, hr, Monitor.answer, hr']
      rfl

theorem after (h : Alike m m') (call : Call α) : Alike (m.after call) (m'.after call) := by
  cases call with
  | record s => exact h.record rfl
  | evaluate as files now =>
    rcases h.evaluate as files now with ⟨e, he, he'⟩ | ⟨report, hr, hr'⟩
    · simpa only [Monitor.after, he, he'] using h
    · simpa only [Monitor.after, hr, hr'] using h.record rfl

theorem answers (h : Alike m m') (calls : List (Call α)) : m.answers calls = m'.answers calls := by
  induction calls generalizing m m' with
  | nil => rfl
  | cons call calls ih => rw [Monitor.answers, h.answer call, ih (h.after call), Monitor.answers]

end Alike

/-! ## Retention -/

theorem alike_of_resume {config : Config α} {r r' : Nat} (hr : max config.history.window 3 ≤ r)
    (hr' : max config.history.window 3 ≤ r') {seeds : List (Snapshot α)}
    (hm : resume (config.retaining r) seeds = .ok m)
    (hm' : resume (config.retaining r') seeds = .ok m') : Alike m m' := by
  obtain ⟨hconfig, hseeds⟩ := resume_eq_ok hm
  obtain ⟨hconfig', hseeds'⟩ := resume_eq_ok hm'
  have hchron : Chronological ((inOrder seeds).map Snapshot.mark) :=
    List.pairwise_map.2 (inOrder_chronological seeds)
  refine ⟨by rw [hconfig', hconfig]; rfl, ⟨(inOrder seeds).map Snapshot.mark, hchron, ?_, ?_⟩, ?_⟩
  · rw [marks, hseeds, newest, map_latest, newest]
  · rw [marks, hseeds', newest, map_latest, newest]
  · rw [hconfig, hconfig']
    exact .inr ⟨hr, hr'⟩

theorem resume_eq_error {config : Config α} {fault : WeightFault α}
    (h : Weights.fault? config.weights = some fault) (seeds : List (Snapshot α)) :
    resume config seeds = .error fault.error := by
  have hstart : start config = .error fault.error := by
    unfold start
    split
    · rename_i fault' hfault
      rw [h] at hfault
      rw [Option.some.inj hfault]
    · rename_i hsound
      rw [h] at hsound
      nomatch hsound
  rw [resume, hstart]
  rfl

/-- **What a history drops is missed by no run.** Two monitors that are set up alike except for the
number of snapshots that they keep, both keeping at least three and as many as the window holds, are
refused alike or answer every sequence of calls alike. -/
theorem answers_retaining (config : Config α) {r r' : Nat} (hr : max config.history.window 3 ≤ r)
    (hr' : max config.history.window 3 ≤ r') (seeds : List (Snapshot α)) (calls : List (Call α)) :
    (resume (config.retaining r) seeds).map (·.answers calls) =
      (resume (config.retaining r') seeds).map (·.answers calls) := by
  cases hfault : Weights.fault? config.weights with
  | some fault =>
    have hrefused : ∀ r, resume (config.retaining r) seeds = .error fault.error := fun r =>
      resume_eq_error (show Weights.fault? (config.retaining r).weights = some fault from hfault) seeds
    rw [hrefused r, hrefused r']
  | none =>
    obtain ⟨m, hm⟩ := exists_resume (config.retaining r) hfault seeds
    obtain ⟨m', hm'⟩ := exists_resume (config.retaining r') hfault seeds
    rw [hm, hm']
    exact congrArg Except.ok ((alike_of_resume hr hr' hm hm').answers calls)

theorem length_run_nil {config : Config α} {m : Monitor α} (h : resume config [] = .ok m)
    (instants : List Instant) :
    (m.run (instants.map (.evaluate [] []))).history.entries.length =
      min instants.length (max config.history.retention 1) := by
  have harrivals : ∀ m : Monitor α,
      (m.arrivals (instants.map (.evaluate [] []))).length = instants.length := by
    induction instants with
    | nil => intro m; rfl
    | cons now instants ih =>
      intro m
      rw [List.map_cons, arrivals, List.length_append, length_arrival?_evaluate_nil, ih,
        List.length_cons, Nat.add_comm]
  rw [resume_run_entries h, length_latest, (inOrder_perm _).length_eq, List.nil_append, harrivals]
  omega

/-- Of four runs, the last of them backdated, one history keeps three and the other keeps all. -/
theorem answers_retaining_three_four :
    let config : Config Float := { Config.standard with history := ⟨1, 1⟩ }
    let calls : List (Call Float) :=
      [⟨1, 0⟩, ⟨4, 0⟩, ⟨3, 0⟩, ⟨2, 0⟩].map (.evaluate [] [])
    ∃ m m', resume (config.retaining 3) [] = .ok m ∧ resume (config.retaining 4) [] = .ok m' ∧
      (m.run calls).history.entries.length = 3 ∧ (m'.run calls).history.entries.length = 4 ∧
      m.answers calls = m'.answers calls := by
  intro config calls
  obtain ⟨m, hm⟩ := exists_resume (config.retaining 3) fault?_standard []
  obtain ⟨m', hm'⟩ := exists_resume (config.retaining 4) fault?_standard []
  have hthree : max config.history.window 3 ≤ 3 := by decide
  have hfour : max config.history.window 3 ≤ 4 := by decide
  have hanswers := answers_retaining config hthree hfour [] calls
  rw [hm, hm'] at hanswers
  exact ⟨m, m', hm, hm', length_run_nil hm _, length_run_nil hm' _, Except.ok.inj hanswers⟩

end Monitor

end CodeQuality
