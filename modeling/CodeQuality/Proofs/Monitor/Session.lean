import CodeQuality.Monitor.Basic
import CodeQuality.Wire.Report
import CodeQuality.Proofs.Timeline.Retention

/-!
# Sessions of a monitor

A session is a sequence of calls on a monitor: snapshots recorded as they are, and runs, of which a
refused one changes nothing. `Monitor.history_run`: whatever the calls and in whatever order their
instants come, the history is the end of the stable sort of everything that arrived, seeds included.

The invariant of a session is `Timeline.Retains`. A call either adds one arrival to it or leaves
the monitor alone (`Monitor.after_retains`).
-/

namespace CodeQuality

/-- What can be asked of a monitor that may change it. -/
inductive Call (α : Type) where
  /-- A snapshot is put into the history as it is. -/
  | record (snapshot : Snapshot α)
  /-- Analyses and measured files are run at an instant. -/
  | evaluate (as : List (Analysis α)) (files : List (FileMeasurement α)) (now : Instant)

namespace Monitor

variable {α : Type} [Scalar α]

/-! ## Runs -/

theorem evaluate_eq_ok_iff {m m' : Monitor α} {as : List (Analysis α)}
    {files : List (FileMeasurement α)} {now : Instant} {report : Report α} :
    m.evaluate as files now = .ok (report, m') ↔
      ∃ breakdown,
        Breakdown.calculate m.config.weights (analysesOf m.config.threshold as files) = .ok breakdown ∧
        report =
          { breakdown
            snapshot :=
              (m.observe (analysesOf m.config.threshold as files) files now breakdown).rounded
            suggestions := suggestions (analysesOf m.config.threshold as files) } ∧
        m' = m.record report.snapshot := by
  simp only [evaluate]
  cases Breakdown.calculate m.config.weights (analysesOf m.config.threshold as files) with
  | error e => simp [bind, Except.bind]
  | ok breakdown =>
    simp only [bind, Except.bind, pure, Except.pure, Except.ok.injEq, Prod.mk.injEq, exists_eq_left']
    constructor
    · rintro ⟨rfl, rfl⟩
      exact ⟨rfl, rfl⟩
    · rintro ⟨rfl, rfl⟩
      exact ⟨rfl, rfl⟩

/-! ## Calls -/

/-- The monitor after a call; a refused run leaves it as it was. -/
def after (m : Monitor α) : Call α → Monitor α
  | .record snapshot => m.record snapshot
  | .evaluate as files now =>
    match m.evaluate as files now with
    | .ok (_, m') => m'
    | .error _ => m

/-- The snapshot that a call puts into the history: the recorded one, or that of the report. -/
def arrival? (m : Monitor α) : Call α → Option (Snapshot α)
  | .record snapshot => some snapshot
  | .evaluate as files now =>
    match m.evaluate as files now with
    | .ok (report, _) => some report.snapshot
    | .error _ => none

/-- The monitor after a sequence of calls. -/
def run (m : Monitor α) (calls : List (Call α)) : Monitor α := calls.foldl after m

/-- The snapshots that a sequence of calls puts into the history, one after the other. -/
def arrivals (m : Monitor α) : List (Call α) → List (Snapshot α)
  | [] => []
  | call :: calls => (m.arrival? call).toList ++ (m.after call).arrivals calls

/-- A call either records one snapshot or leaves the monitor alone. -/
theorem after_eq (m : Monitor α) (call : Call α) :
    m.after call = (m.arrival? call).elim m m.record := by
  cases call with
  | record snapshot => rfl
  | evaluate as files now =>
    simp only [after, arrival?]
    split
    · rename_i report m' h
      obtain ⟨_, -, -, rfl⟩ := evaluate_eq_ok_iff.1 h
      rfl
    · rfl

theorem after_config (m : Monitor α) (call : Call α) : (m.after call).config = m.config := by
  rw [after_eq]
  cases m.arrival? call <;> rfl

theorem run_config (m : Monitor α) (calls : List (Call α)) : (m.run calls).config = m.config := by
  induction calls generalizing m with
  | nil => rfl
  | cons call calls ih => exact (ih (m.after call)).trans (m.after_config call)

/-! ## Retention -/

theorem after_retains {m : Monitor α} {arrived : List (Snapshot α)} (h : m.history.Retains arrived)
    (call : Call α) : (m.after call).history.Retains (arrived ++ (m.arrival? call).toList) := by
  rw [after_eq]
  cases m.arrival? call with
  | none => simpa using h
  | some snapshot => exact h.insert snapshot

theorem run_retains {m : Monitor α} {arrived : List (Snapshot α)} (h : m.history.Retains arrived)
    (calls : List (Call α)) : (m.run calls).history.Retains (arrived ++ m.arrivals calls) := by
  induction calls generalizing m arrived with
  | nil => rwa [arrivals, List.append_nil]
  | cons call calls ih =>
    -- what the first call adds has arrived before the others
    rw [arrivals, ← List.append_assoc]
    exact ih (after_retains h call)

/-! ## Starting -/

theorem start_eq_ok {config : Config α} {m : Monitor α} (h : start config = .ok m) :
    Weights.fault? config.weights = none ∧ m.config = config ∧ m.history.Retains [] := by
  unfold start at h
  split at h
  · nomatch h
  · rename_i hsound
    obtain rfl := Except.ok.inj h
    exact ⟨hsound, rfl, Timeline.empty_retains⟩

theorem exists_start_iff {config : Config α} :
    (∃ m, start config = .ok m) ↔ Weights.fault? config.weights = none := by
  constructor
  · rintro ⟨m, h⟩
    exact (start_eq_ok h).1
  · intro h
    unfold start
    split
    · rename_i hfault
      rw [h] at hfault
      nomatch hfault
    · exact ⟨_, rfl⟩

theorem exists_startIn_iff {room : Nat} {config : Config α} :
    (∃ m, startIn room config = some (.ok m)) ↔
      Weights.fault? config.weights = none ∧ max config.history.retention 1 ≤ room := by
  rw [← exists_start_iff, startIn]
  cases start config with
  | error e => simp
  | ok m => simp

theorem startIn_eq_none_iff {room : Nat} {config : Config α} :
    startIn room config = none ↔
      Weights.fault? config.weights = none ∧ room < max config.history.retention 1 := by
  rw [← exists_start_iff, startIn]
  cases start config with
  | error e => simp
  | ok m =>
    have hstarts : ∃ m', (.ok m : Except Error (Monitor α)) = .ok m' := ⟨m, rfl⟩
    rw [and_iff_right hstarts]
    show (if max config.history.retention 1 ≤ room then some (Except.ok m) else none) = none ↔ _
    split
    next hroom => exact ⟨nofun, fun h => absurd hroom (Nat.not_le.2 h)⟩
    next hroom => exact ⟨fun _ => Nat.not_le.1 hroom, fun _ => rfl⟩

theorem foldl_record_eq_run (m : Monitor α) (seeds : List (Snapshot α)) :
    seeds.foldl record m = m.run (seeds.map .record) := by
  rw [run, List.foldl_map]
  rfl

theorem arrivals_map_record (m : Monitor α) (seeds : List (Snapshot α)) :
    m.arrivals (seeds.map .record) = seeds := by
  induction seeds generalizing m with
  | nil => rfl
  | cons seed seeds ih => exact congrArg (seed :: ·) (ih (m.record seed))

theorem resume_eq_ok {config : Config α} {seeds : List (Snapshot α)} {m : Monitor α}
    (h : resume config seeds = .ok m) : m.config = config ∧ m.history.Retains seeds := by
  cases hstart : start config with
  | error e =>
    rw [resume, hstart] at h
    nomatch h
  | ok m₀ =>
    rw [resume, hstart] at h
    obtain rfl : m = m₀.run (seeds.map .record) := by
      rw [← foldl_record_eq_run]
      exact (Except.ok.inj h).symm
    obtain ⟨-, hconfig, hnone⟩ := start_eq_ok hstart
    refine ⟨(run_config _ _).trans hconfig, ?_⟩
    simpa [arrivals_map_record] using run_retains hnone (seeds.map .record)

theorem exists_resume (config : Config α) (h : Weights.fault? config.weights = none)
    (seeds : List (Snapshot α)) : ∃ m, resume config seeds = .ok m := by
  obtain ⟨m₀, hstart⟩ := exists_start_iff.2 h
  exact ⟨seeds.foldl record m₀, by rw [resume, hstart]; rfl⟩

theorem fault?_standard : Weights.fault? (Weights.standard : Weights Float) = none :=
  Option.isNone_iff_eq_none.1 (by decide +kernel)

/-! ## The law of the history -/

/-- The snapshots that the JSON text of a history holds. -/
def snapshotsOf? (text : String) : Option (List (Snapshot Float)) :=
  (Json.read? text).bind (Json.list? Snapshot.ofJson?)

theorem ofHistoryText_eq_ok {config : Config Float} {text : String} {m : Monitor Float}
    (h : ofHistoryText config text = .ok m) :
    ∃ seeds, snapshotsOf? text = some seeds ∧ resume config seeds = .ok m := by
  unfold ofHistoryText at h
  split at h
  · rename_i seeds hseeds
    exact ⟨seeds, hseeds, h⟩
  · nomatch h

theorem resume_run_entries {config : Config α} {seeds : List (Snapshot α)} {m : Monitor α}
    (h : resume config seeds = .ok m) (calls : List (Call α)) :
    (m.run calls).history.entries =
      latest (min (seeds ++ m.arrivals calls).length (max config.history.retention 1))
        (inOrder (seeds ++ m.arrivals calls)) := by
  obtain ⟨rfl, hseeds⟩ := resume_eq_ok h
  rw [(run_retains hseeds calls).entries_eq, run_config]

/-- **The history is the end of the stable sort of all arrivals.** For a monitor that starts with
given snapshots or with those in a text, after any sequence of calls; and for the points of a
timeline of scores. -/
theorem history_run (α : Type) [Scalar α] :
    (∀ (config : Config α) (seeds : List (Snapshot α)) (m : Monitor α) (calls : List (Call α)),
      resume config seeds = .ok m →
        (m.run calls).history.entries =
          latest (min (seeds ++ m.arrivals calls).length (max config.history.retention 1))
            (inOrder (seeds ++ m.arrivals calls))) ∧
    (∀ (config : Config Float) (text : String) (m : Monitor Float) (calls : List (Call Float)),
      ofHistoryText config text = .ok m →
        ∃ seeds, snapshotsOf? text = some seeds ∧
          (m.run calls).history.entries =
            latest (min (seeds ++ m.arrivals calls).length (max config.history.retention 1))
              (inOrder (seeds ++ m.arrivals calls))) ∧
    ∀ (capacity : Nat) (points further : List (Point α)),
      (further.foldl Timeline.insert (Timeline.ofList capacity points)).entries =
        latest (min (points ++ further).length (max capacity 1)) (inOrder (points ++ further)) := by
  refine ⟨fun config seeds m calls h => resume_run_entries h calls, ?_, ?_⟩
  · intro config text m calls h
    obtain ⟨seeds, hseeds, hresume⟩ := ofHistoryText_eq_ok h
    exact ⟨seeds, hseeds, resume_run_entries hresume calls⟩
  · intro capacity points further
    have hpoints : (Timeline.ofList capacity points).Retains points :=
      Timeline.entries_ofList capacity points
    exact (hpoints.foldl_insert further).entries_eq

theorem exists_evaluate_nil (m : Monitor α) (now : Instant) :
    ∃ report m', m.evaluate [] [] now = .ok (report, m') :=
  ⟨_, _, evaluate_eq_ok_iff.2 ⟨_, rfl, rfl, rfl⟩⟩

theorem length_arrival?_evaluate_nil (m : Monitor α) (now : Instant) :
    (m.arrival? (.evaluate [] [] now)).toList.length = 1 := by
  obtain ⟨report, m', h⟩ := m.exists_evaluate_nil now
  rw [arrival?, h]
  rfl

/-- Of three runs that arrive out of order, a history of two drops the oldest, which came last. -/
theorem history_run_backdated :
    ∃ m : Monitor Float, resume { Config.standard with history := ⟨10, 2⟩ } [] = .ok m ∧
      let calls : List (Call Float) :=
        [.evaluate [] [] ⟨2, 0⟩, .evaluate [] [] ⟨3, 0⟩, .evaluate [] [] ⟨1, 0⟩]
      (m.arrivals calls).length = 3 ∧
      (m.run calls).history.entries =
        latest (min ([] ++ m.arrivals calls).length (max 2 1)) (inOrder ([] ++ m.arrivals calls)) := by
  obtain ⟨m, hm⟩ := exists_resume { Config.standard with history := ⟨10, 2⟩ } fault?_standard []
  refine ⟨m, hm, ?_, (history_run Float).1 _ _ _ _ hm⟩
  simp only [arrivals, List.length_append, length_arrival?_evaluate_nil, List.length_nil]

end Monitor

end CodeQuality
