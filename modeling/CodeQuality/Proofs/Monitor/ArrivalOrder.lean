import Mathlib.Data.List.Forall2
import CodeQuality.Proofs.Monitor.Likeness

/-!
# The order of arrival

`Monitor.arrival_order`: runs at different instants may arrive in any order. The histories that they
leave behind agree, snapshot by snapshot, in all that a snapshot says of its own run, and every later
call is answered alike.

The snapshots themselves are not the same, since each tells the trends that were seen at its arrival.
What does not depend on the arrival is the finding of a snapshot (`Snapshot.finding`): a call adds the
same finding to every monitor that is set up alike (`Monitor.map_finding_arrival?`), so the findings of
a history are the newest of one multiset, sorted, and the order of arrival is gone
(`inOrder_append_perm`). The marks that later runs read are part of the findings.
-/

namespace CodeQuality

open Scalar Timeline

variable {α : Type} [Scalar α]

/-! ## Findings -/

/-- What a snapshot says of its own run, apart from what came before. -/
structure Finding (α : Type) where
  instant : Instant
  score : α
  /-- The debt, its trend left out. -/
  debt : Debt α
  profile : Profile α
  health : Health
  version : String

instance (α : Type) : Timed (Finding α) := ⟨Finding.instant⟩

namespace Snapshot

def finding (s : Snapshot α) : Finding α :=
  { instant := s.instant
    score := s.score
    debt := { s.debt with trend := .stable }
    profile := s.profile
    health := s.health
    version := s.version }

/-- Two snapshots say the same of their runs: all but the trend, the forecast and the trend of the
debt. -/
structure Agrees (s s' : Snapshot α) : Prop where
  instant : s.instant = s'.instant
  score : s.score = s'.score
  profile : s.profile = s'.profile
  health : s.health = s'.health
  version : s.version = s'.version
  hours : s.debt.hours = s'.debt.hours
  ratio : s.debt.ratio = s'.debt.ratio
  density : s.debt.density = s'.debt.density
  interest : s.debt.interest = s'.debt.interest
  payback : s.debt.payback = s'.debt.payback

omit [Scalar α] in
theorem agrees_of_finding_eq {s s' : Snapshot α} (h : s.finding = s'.finding) : s.Agrees s' := by
  simp only [finding, Finding.mk.injEq, Debt.mk.injEq, and_true] at h
  obtain ⟨hinstant, hscore, ⟨hhours, hratio, hdensity, hinterest, hpayback⟩, hprofile, hhealth,
    hversion⟩ := h
  exact ⟨hinstant, hscore, hprofile, hhealth, hversion, hhours, hratio, hdensity, hinterest, hpayback⟩

omit [Scalar α] in
theorem forall₂_agrees {ss ss' : List (Snapshot α)} (h : ss.map finding = ss'.map finding) :
    List.Forall₂ Agrees ss ss' := by
  rw [← List.forall₂_eq_eq_eq, List.forall₂_map_left_iff, List.forall₂_map_right_iff] at h
  exact h.imp fun _ _ => agrees_of_finding_eq

end Snapshot

def Finding.mark (f : Finding α) : Mark α := ⟨f.instant, f.score, f.debt.hours⟩

/-! ## Calls -/

/-- The instant at which a call takes its place in the history. -/
def Call.instant : Call α → Instant
  | .record snapshot => snapshot.instant
  | .evaluate _ _ now => now

namespace Monitor

variable {m m' : Monitor α}

theorem instant_arrival? {call : Call α} {s : Snapshot α} (h : m.arrival? call = some s) :
    s.instant = call.instant := by
  cases call with
  | record snapshot => rw [← Option.some.inj h]; rfl
  | evaluate as files now =>
    simp only [arrival?] at h
    split at h
    · rename_i report m₁ hok
      obtain ⟨breakdown, -, hreport, -⟩ := evaluate_eq_ok_iff.1 hok
      rw [← Option.some.inj h, hreport]
      rfl
    · cases h

theorem finding_observe (h : m.config.teamSize = m'.config.teamSize) (as : List (Analysis α))
    (files : List (FileMeasurement α)) (now : Instant) (breakdown : Breakdown α) :
    (m.observe as files now breakdown).rounded.finding =
      (m'.observe as files now breakdown).rounded.finding := by
  simp only [observe, h]
  rfl

/-- A call adds the same finding to every monitor that is set up alike. -/
theorem map_finding_arrival? (h : m.config = m'.config) (call : Call α) :
    (m.arrival? call).map Snapshot.finding = (m'.arrival? call).map Snapshot.finding := by
  cases call with
  | record snapshot => rfl
  | evaluate as files now =>
    simp only [arrival?, evaluate, ← h]
    cases Breakdown.calculate m.config.weights (analysesOf m.config.threshold as files) with
    | error e => rfl
    | ok breakdown => exact congrArg some (finding_observe (by rw [h]) _ files now breakdown)

/-! ## Findings of a session -/

/-- What calls find, each for itself. -/
def findings (m : Monitor α) (calls : List (Call α)) : List (Finding α) :=
  calls.filterMap fun call => (m.arrival? call).map Snapshot.finding

theorem findings_congr (h : m.config = m'.config) (calls : List (Call α)) :
    m.findings calls = m'.findings calls := by
  have harrival : (fun call => (m.arrival? call).map Snapshot.finding) =
      fun call => (m'.arrival? call).map Snapshot.finding := funext (map_finding_arrival? h)
  rw [findings, harrival, findings]

theorem findings_perm (m : Monitor α) {calls calls' : List (Call α)} (h : calls.Perm calls') :
    (m.findings calls).Perm (m.findings calls') := h.filterMap _

theorem map_finding_arrivals (m : Monitor α) (calls : List (Call α)) :
    (m.arrivals calls).map Snapshot.finding = m.findings calls := by
  induction calls generalizing m with
  | nil => rfl
  | cons call calls ih =>
    rw [arrivals, List.map_append, ih, findings_congr (m.after_config call), findings, findings,
      List.filterMap_cons]
    cases m.arrival? call <;> rfl

theorem map_finding_run (m : Monitor α) (calls : List (Call α)) :
    (m.run calls).history.entries.map Snapshot.finding =
      newest m.config.history.retention
        (inOrder (m.history.entries.map Snapshot.finding ++ m.findings calls)) := by
  rw [run_retains (retains_entries m.history) calls, run_config, newest, map_latest,
    map_inOrder Snapshot.finding (fun _ => rfl), List.map_append, map_finding_arrivals, newest]

theorem instants_findings (m : Monitor α) (calls : List (Call α)) :
    ((m.findings calls).map Timed.instant).Sublist (calls.map Call.instant) := by
  induction calls with
  | nil => exact .slnil
  | cons call calls ih =>
    rw [findings, List.filterMap_cons, List.map_cons]
    cases harrival : m.arrival? call with
    | none => exact ih.cons _
    | some s =>
      have hinstant : Timed.instant s.finding = call.instant := instant_arrival? harrival
      rw [← hinstant]
      exact ih.cons_cons _

/-! ## The main statement -/

theorem alike_of_finding_eq (hconfig : m.config = m'.config)
    (h : m.history.entries.map Snapshot.finding = m'.history.entries.map Snapshot.finding) :
    Alike m m' := by
  have hmark : ∀ m : Monitor α,
      m.marks = (m.history.entries.map Snapshot.finding).map Finding.mark := by
    intro m
    rw [marks, List.map_map]
    rfl
  have hchron : Chronological m.marks := List.pairwise_map.2 m.history.sorted
  have hself : m.marks = newest m.config.history.retention m.marks := by
    refine (latest_of_length_le ?_).symm
    rw [marks, List.length_map]
    exact m.history.bounded
  -- the common sequence is what both have kept already
  refine ⟨by rw [← hconfig]; rfl, ⟨m.marks, hchron, hself, ?_⟩, .inl (by rw [hconfig])⟩
  rw [hmark m', ← h, ← hmark m, ← hconfig]
  exact hself

/-- **The order in which runs arrive does not matter.** Calls at different instants, made in two orders
on one monitor, leave histories of one length whose snapshots agree one by one in what they say of
their own runs, and whatever is asked afterwards is answered alike. -/
theorem arrival_order (m : Monitor α) {calls calls' : List (Call α)} (h : calls.Perm calls')
    (hdistinct : (calls.map Call.instant).Nodup) :
    List.Forall₂ Snapshot.Agrees (m.run calls).history.entries (m.run calls').history.entries ∧
      ∀ later : List (Call α), (m.run calls).answers later = (m.run calls').answers later := by
  have hfindings : (m.run calls).history.entries.map Snapshot.finding =
      (m.run calls').history.entries.map Snapshot.finding := by
    rw [map_finding_run, map_finding_run,
      inOrder_append_perm _ (m.findings_perm h) ((m.instants_findings calls).nodup hdistinct)]
  have hconfig : (m.run calls).config = (m.run calls').config := by rw [run_config, run_config]
  exact ⟨Snapshot.forall₂_agrees hfindings, (alike_of_finding_eq hconfig hfindings).answers⟩

/-- Three runs in two orders, on a history of two that holds a snapshot of the instant of one of them. -/
theorem arrival_order_three :
    ∃ m₀ : Monitor Float, start { Config.standard with history := ⟨10, 2⟩ } = .ok m₀ ∧
      let m := m₀.run [.evaluate [] [] ⟨2, 0⟩]
      let calls : List (Call Float) := [⟨1, 0⟩, ⟨2, 0⟩, ⟨3, 0⟩].map (.evaluate [] [])
      let calls' : List (Call Float) := [⟨3, 0⟩, ⟨1, 0⟩, ⟨2, 0⟩].map (.evaluate [] [])
      calls.Perm calls' ∧ (calls.map Call.instant).Nodup ∧
      List.Forall₂ Snapshot.Agrees (m.run calls).history.entries (m.run calls').history.entries ∧
      ∀ later : List (Call Float), (m.run calls).answers later = (m.run calls').answers later := by
  obtain ⟨m₀, hm₀⟩ : ∃ m : Monitor Float,
      start { Config.standard with history := ⟨10, 2⟩ } = .ok m := exists_start_iff.2 fault?_standard
  have hinstants : List.Perm [(⟨1, 0⟩ : Instant), ⟨2, 0⟩, ⟨3, 0⟩] [⟨3, 0⟩, ⟨1, 0⟩, ⟨2, 0⟩] := by
    decide
  have hperm := hinstants.map (Call.evaluate ([] : List (Analysis Float)) [])
  have hdistinct : (([⟨1, 0⟩, ⟨2, 0⟩, ⟨3, 0⟩].map
      (Call.evaluate ([] : List (Analysis Float)) [])).map Call.instant).Nodup := by
    decide
  exact ⟨m₀, hm₀, hperm, hdistinct, arrival_order _ hperm hdistinct⟩

end Monitor

end CodeQuality
