import CodeQuality.Proofs.Binary64.Whole
import CodeQuality.Proofs.Monitor.Session

/-!
# Labels beside rounded numbers

The letters, the direction and the time to the target of a snapshot are told before its numbers are
rounded to two decimals. `Monitor.labels_evaluate`: they are those of the stored numbers, except where
a stored number is exactly a bound between two labels. There the label may still be that of the side
that the number came from.

Rounding keeps the side of every bound with two decimals (`hundredths_le`, `le_hundredths`), so that a
label can change only if the number arrives at the bound itself (`meets_of_crossed`).
-/

namespace CodeQuality

open Binary64 Scalar

/-- The value `x` is the number `b`, whatever the sign of a zero. -/
def Meets (x b : Float) : Prop := x ≤ b ∧ b ≤ x

/-! ## Crossing a bound -/

section bounds

variable {x b c : Float}

theorem not_le_hundredths_notANumber (hx : form x = .notANumber) : ¬ b ≤ hundredths x :=
  not_le_notANumber (hundredths_notANumber hx)

theorem meets_of_crossed (hb : HasTwoDecimals b) (h : b ≤ hundredths x) (hx : ¬ b ≤ x) :
    Meets (hundredths x) b := by
  obtain ⟨r, n, hr, -⟩ := id hb
  rcases le_or_ge hr x with hle | hge | hn
  · exact ⟨hundredths_le hb hle, h⟩
  · exact absurd hge hx
  · exact absurd h (not_le_hundredths_notANumber hn)

theorem le_of_crossed (hb : HasTwoDecimals b) (hc : HasTwoDecimals c) (hcb : c < b)
    (h : b ≤ hundredths x) : c ≤ x := by
  obtain ⟨r, n, hr, -⟩ := hb
  obtain ⟨s, k, hs, -⟩ := id hc
  rcases le_or_ge hs x with hle | hge | hn
  · -- rounding would have stopped at the lower bound
    obtain ⟨y, -, hry, hys⟩ := denotes_of_between hr hs h (hundredths_le hc hle)
    exact absurd ((hs.lt_iff hr).1 hcb) (not_lt.2 (hry.trans hys))
  · exact hge
  · exact absurd h (not_le_hundredths_notANumber hn)

theorem hundredths_lt_iff (hb : HasTwoDecimals b) (hne : ¬ Meets (hundredths x) b) :
    hundredths x < b ↔ x < b := by
  obtain ⟨r, n, hr, -⟩ := id hb
  rw [gt_iff_of_denotes hr, gt_iff_of_denotes hr]
  constructor
  · rintro ⟨hle, hnot⟩
    rcases le_or_ge hr x with h | h | hn
    · exact ⟨h, mt (le_hundredths hb) hnot⟩
    · exact absurd (le_hundredths hb h) hnot
    · have hnan := hundredths_notANumber hn
      rw [le_def, hnan] at hle
      simp [Float.Model.UnpackedFloat.compare] at hle
  · rintro ⟨hle, -⟩
    have hle' := hundredths_le hb hle
    exact ⟨hle', fun h => hne ⟨hle', h⟩⟩

theorem lt_hundredths_iff (hb : HasTwoDecimals b) (hne : ¬ Meets (hundredths x) b) :
    b < hundredths x ↔ b < x := by
  obtain ⟨r, n, hr, -⟩ := id hb
  rw [lt_iff_of_denotes hr, lt_iff_of_denotes hr]
  constructor
  · rintro ⟨hle, hnot⟩
    rcases le_or_ge hr x with h | h | hn
    · exact absurd (hundredths_le hb h) hnot
    · exact ⟨h, mt (hundredths_le hb) hnot⟩
    · exact absurd hle (not_le_hundredths_notANumber hn)
  · rintro ⟨hle, -⟩
    have hle' := le_hundredths hb hle
    exact ⟨hle', fun h => hne ⟨h, hle'⟩⟩

end bounds

/-! ## Letters -/

/-- The number of bounds, the largest first, that a value stays below. -/
def missed (bounds : List Float) (x : Float) : Nat :=
  (bounds.takeWhile fun b => !decide (b ≤ x)).length

theorem missed_cons_of_le {b x : Float} (bounds : List Float) (h : b ≤ x) :
    missed (b :: bounds) x = 0 := by
  simp [missed, h]

theorem missed_cons_of_not_le {b x : Float} (bounds : List Float) (h : ¬ b ≤ x) :
    missed (b :: bounds) x = missed bounds x + 1 := by
  simp [missed, h]

theorem missed_hundredths {bounds : List Float} (hbounds : ∀ b ∈ bounds, HasTwoDecimals b)
    (hdescending : bounds.Pairwise fun b c => c < b) (x : Float) :
    missed bounds x = missed bounds (hundredths x) ∨
      (∃ b ∈ bounds, Meets (hundredths x) b) ∧
        missed bounds x = missed bounds (hundredths x) + 1 := by
  induction bounds with
  | nil => exact .inl rfl
  | cons b bounds ih =>
    have hb := hbounds b List.mem_cons_self
    have hrest := fun c hc => hbounds c (List.mem_cons_of_mem b hc)
    obtain ⟨hhead, htail⟩ := List.pairwise_cons.1 hdescending
    by_cases hx : b ≤ x
    · left
      rw [missed_cons_of_le bounds hx, missed_cons_of_le bounds (le_hundredths hb hx)]
    · rw [missed_cons_of_not_le bounds hx]
      by_cases hround : b ≤ hundredths x
      · right
        refine ⟨⟨b, List.mem_cons_self, meets_of_crossed hb hround hx⟩, ?_⟩
        rw [missed_cons_of_le bounds hround]
        -- the next bound lies far enough below to be met before the rounding too
        cases bounds with
        | nil => rfl
        | cons c bounds =>
          have hc := le_of_crossed hb (hrest c List.mem_cons_self) (hhead c List.mem_cons_self) hround
          rw [missed_cons_of_le bounds hc]
      · rw [missed_cons_of_not_le bounds hround]
        rcases ih hrest htail with heq | ⟨⟨c, hc, hmeets⟩, heq⟩
        · exact .inl (by rw [heq])
        · exact .inr ⟨⟨c, List.mem_cons_of_mem b hc, hmeets⟩, by rw [heq]⟩

namespace Grade

theorem rank_injective {g h : Grade} (heq : g.rank = h.rank) : g = h := by
  cases g <;> cases h <;> first | rfl | nomatch heq

theorem rank_ofBands (b₁ b₂ b₃ b₄ x : Float) :
    (ofBands (b₁, b₂, b₃, b₄) x).rank = missed [b₁, b₂, b₃, b₄] x := by
  simp only [ofBands, missed, List.takeWhile_cons, List.takeWhile_nil]
  by_cases h₁ : b₁ ≤ x <;> by_cases h₂ : b₂ ≤ x <;> by_cases h₃ : b₃ ≤ x <;> by_cases h₄ : b₄ ≤ x <;>
    simp [h₁, h₂, h₃, h₄, rank]

theorem ofBands_hundredths {b₁ b₂ b₃ b₄ : Float}
    (hbounds : ∀ b ∈ [b₁, b₂, b₃, b₄], HasTwoDecimals b)
    (hdescending : [b₁, b₂, b₃, b₄].Pairwise fun b c => c < b) (x : Float) :
    ofBands (b₁, b₂, b₃, b₄) x = ofBands (b₁, b₂, b₃, b₄) (hundredths x) ∨
      (∃ b ∈ [b₁, b₂, b₃, b₄], Meets (hundredths x) b) ∧
        (ofBands (b₁, b₂, b₃, b₄) x).rank = (ofBands (b₁, b₂, b₃, b₄) (hundredths x)).rank + 1 := by
  rw [rank_ofBands, rank_ofBands]
  refine (missed_hundredths hbounds hdescending x).imp_left fun heq => ?_
  apply rank_injective
  rw [rank_ofBands, rank_ofBands, heq]

end Grade

/-! ## Directions -/

theorem hasTwoDecimals_zero : HasTwoDecimals 0.0 := hasTwoDecimals_literal (n := 0) (by norm_num)

theorem hasTwoDecimals_neg_half : HasTwoDecimals (-0.5) := hasTwoDecimals_half.neg

theorem not_lt_of_meets {x b : Float} (hb : HasTwoDecimals b) (h : Meets x b) :
    ¬ b < x ∧ ¬ x < b := by
  obtain ⟨r, n, hr, -⟩ := hb
  rw [lt_iff_of_denotes hr, gt_iff_of_denotes hr]
  exact ⟨fun hlt => hlt.2 h.1, fun hlt => hlt.2 h.2⟩

theorem Direction.ofVelocity_hundredths (v : Float) :
    ofVelocity v = ofVelocity (hundredths v) ∨
      Meets (hundredths v) 0.5 ∧ ofVelocity v = .improving ∨
      Meets (hundredths v) (-0.5) ∧ ofVelocity v = .declining := by
  by_cases hup : (0.5 : Float) < hundredths v ↔ (0.5 : Float) < v
  · by_cases hdown : hundredths v < (-0.5 : Float) ↔ v < (-0.5 : Float)
    · left
      unfold ofVelocity
      simp only [hup, hdown]
    · right
      right
      have hmeets := not_not.1 (mt (hundredths_lt_iff hasTwoDecimals_neg_half) hdown)
      have hnot := (not_lt_of_meets hasTwoDecimals_neg_half hmeets).2
      have hdeclines : v < (-0.5 : Float) := by
        by_contra h
        exact hdown ⟨fun hlt => absurd hlt hnot, fun hlt => absurd hlt h⟩
      refine ⟨hmeets, ?_⟩
      -- the test for an improvement comes first, and fails
      have hflat : ¬ (0.5 : Float) < v := by
        intro hlt
        have hle := le_hundredths hasTwoDecimals_half ((lt_iff_of_denotes denotes_half).1 hlt).1
        obtain ⟨y, -, hlo, hhi⟩ := denotes_of_between denotes_half (neg_denotes denotes_half) hle hmeets.1
        norm_num at hlo hhi
        linarith
      unfold ofVelocity
      rw [if_neg hflat, if_pos hdeclines]
  · right
    left
    have hmeets := not_not.1 (mt (lt_hundredths_iff hasTwoDecimals_half) hup)
    have hnot := (not_lt_of_meets hasTwoDecimals_half hmeets).1
    have himproves : (0.5 : Float) < v := by
      by_contra h
      exact hup ⟨fun hlt => absurd hlt hnot, fun hlt => absurd hlt h⟩
    exact ⟨hmeets, if_pos himproves⟩

theorem Trend.direction_ofScores (window : Nat) (scores : List Float) :
    (Trend.ofScores window scores).direction = .ofVelocity (Trend.ofScores window scores).velocity := by
  unfold ofScores
  split
  · show Direction.stable = .ofVelocity (0.0 : Float)
    decide +kernel
  · rfl

/-! ## Snapshots -/

/-- The labels of a snapshot are those of its numbers, unless a number is exactly a bound between two
labels: then the label may be that of the numbers beside it. -/
structure Snapshot.LabelsFit (s : Snapshot Float) : Prop where
  grade : s.health.grade = .ofScore s.score ∨
    (∃ b ∈ [90.0, 80.0, 70.0, 60.0], Meets s.score b) ∧
      s.health.grade.rank = (Grade.ofScore s.score).rank + 1
  rating : s.profile.rating = .ofMaintainability s.profile.index ∨
    (∃ b ∈ [85.0, 65.0, 45.0, 25.0], Meets s.profile.index b) ∧
      s.profile.rating.rank = (Grade.ofMaintainability s.profile.index).rank + 1
  direction : s.trend.direction = .ofVelocity s.trend.velocity ∨
    Meets s.trend.velocity 0.5 ∧ s.trend.direction = .improving ∨
    Meets s.trend.velocity (-0.5) ∧ s.trend.direction = .declining
  timeToTarget : (s.forecast.timeToTarget.isSome ↔ 0.0 < s.trend.velocity) ∨
    Meets s.trend.velocity 0.0 ∧ s.forecast.timeToTarget.isSome

theorem rating_of (as : List (Analysis Float)) (files : List (FileMeasurement Float)) :
    (Profile.of as files).rating = .ofMaintainability (Profile.of as files).index := by
  unfold Profile.of
  split <;> rfl

theorem grade_bounds : (∀ b ∈ [90.0, 80.0, 70.0, 60.0], HasTwoDecimals b) ∧
    [(90.0 : Float), 80.0, 70.0, 60.0].Pairwise fun b c => c < b := by
  refine ⟨?_, by decide +kernel⟩
  intro b hb
  simp only [List.mem_cons, List.not_mem_nil, or_false] at hb
  rcases hb with rfl | rfl | rfl | rfl
  · exact hasTwoDecimals_literal (n := 90) (by norm_num)
  · exact hasTwoDecimals_literal (n := 80) (by norm_num)
  · exact hasTwoDecimals_literal (n := 70) (by norm_num)
  · exact hasTwoDecimals_literal (n := 60) (by norm_num)

theorem rating_bounds : (∀ b ∈ [85.0, 65.0, 45.0, 25.0], HasTwoDecimals b) ∧
    [(85.0 : Float), 65.0, 45.0, 25.0].Pairwise fun b c => c < b := by
  refine ⟨?_, by decide +kernel⟩
  intro b hb
  simp only [List.mem_cons, List.not_mem_nil, or_false] at hb
  rcases hb with rfl | rfl | rfl | rfl
  · exact hasTwoDecimals_literal (n := 85) (by norm_num)
  · exact hasTwoDecimals_literal (n := 65) (by norm_num)
  · exact hasTwoDecimals_literal (n := 45) (by norm_num)
  · exact hasTwoDecimals_literal (n := 25) (by norm_num)

namespace Monitor

theorem labelsFit_observe (m : Monitor Float) (as : List (Analysis Float))
    (files : List (FileMeasurement Float)) (now : Instant) (breakdown : Breakdown Float) :
    (m.observe as files now breakdown).rounded.LabelsFit := by
  constructor
  · exact Grade.ofBands_hundredths grade_bounds.1 grade_bounds.2 breakdown.overall
  · have hrating := Grade.ofBands_hundredths rating_bounds.1 rating_bounds.2
      (Profile.of as files).index
    show (Profile.of as files).rating = _ ∨ _ ∧ (Profile.of as files).rating.rank = _
    rw [rating_of]
    exact hrating
  · have hdirection := Direction.ofVelocity_hundredths (m.trendWith now breakdown.overall).velocity
    rw [trendWith, ← Trend.direction_ofScores] at hdirection
    exact hdirection
  · let trend := m.trendWith now breakdown.overall
    have hsome : (m.observe as files now breakdown).rounded.forecast.timeToTarget.isSome ↔
        0.0 < trend.velocity := by
      show (Option.map hundredths _).isSome ↔ _
      rw [Option.isSome_map]
      exact Forecast.isSome_timeToTarget ..
    show (_ ↔ 0.0 < hundredths trend.velocity) ∨ Meets (hundredths trend.velocity) 0.0 ∧ _
    rw [hsome]
    by_cases hsign : 0.0 < hundredths trend.velocity ↔ 0.0 < trend.velocity
    · exact .inl hsign.symm
    · right
      have hmeets := not_not.1 (mt (lt_hundredths_iff hasTwoDecimals_zero) hsign)
      have hnot := (not_lt_of_meets hasTwoDecimals_zero hmeets).1
      refine ⟨hmeets, ?_⟩
      by_contra h
      exact hsign ⟨fun hlt => absurd hlt hnot, fun hlt => absurd hlt h⟩

/-- **Labels belong to the stored numbers, up to the bounds.** The snapshot that a run reports and
records bears the grade, the rating and the direction of its own numbers, and a time to the target
exactly if its velocity is positive, unless such a number is exactly the bound: rounded up to a bound
it keeps the next worse letter, rounded to a velocity of one half the direction, and rounded to zero
the time. -/
theorem labels_evaluate {m m' : Monitor Float} {as : List (Analysis Float)}
    {files : List (FileMeasurement Float)} {now : Instant} {report : Report Float}
    (h : m.evaluate as files now = .ok (report, m')) :
    report.snapshot.LabelsFit ∧ m' = m.record report.snapshot := by
  obtain ⟨breakdown, -, rfl, hrecord⟩ := evaluate_eq_ok_iff.1 h
  exact ⟨labelsFit_observe m _ files now breakdown, hrecord⟩

/-- A monitor that nothing is set for. -/
def fresh : Monitor Float := ⟨.standard, by rw [Config.standard, fault?_standard]; rfl, .empty⟩

/-- Analyses that state their scores, the last one that of the complexity. -/
def scoredAnalyses (complexity : Float) : List (Analysis Float) :=
  [(Analysis.empty (some .typeCheck)).withScore 100.0, (Analysis.empty (some .lint)).withScore 100.0,
    (Analysis.empty (some .coverage)).withScore 100.0,
    (Analysis.empty (some .complexity)).withScore complexity]

/-- The report of a run that is accepted. -/
def report? (m : Monitor Float) (as : List (Analysis Float)) (now : Instant) : Option (Report Float) :=
  (m.evaluate as [] now).toOption.map Prod.fst

theorem labels_evaluate_fresh :
    ∃ report m', fresh.evaluate (scoredAnalyses 50.0) [] ⟨0, 0⟩ = .ok (report, m') ∧
      report.snapshot.LabelsFit ∧ m' = fresh.record report.snapshot := by
  have hok : (fresh.evaluate (scoredAnalyses 50.0) [] ⟨0, 0⟩).isOk = true := by decide +kernel
  cases h : fresh.evaluate (scoredAnalyses 50.0) [] ⟨0, 0⟩ with
  | error e =>
    rw [h] at hok
    nomatch hok
  | ok result => exact ⟨result.1, result.2, rfl, labels_evaluate h⟩

/-- A score of `89.996` is stored as `90.0` beside the grade of the scores below it. -/
theorem grade_rounded_up :
    (report? fresh (scoredAnalyses 39.98) ⟨0, 0⟩).map
        (fun r => (r.snapshot.health.grade, Grade.ofScore r.snapshot.score)) =
      some (.b, .a) := by
  decide +kernel

end Monitor

end CodeQuality
