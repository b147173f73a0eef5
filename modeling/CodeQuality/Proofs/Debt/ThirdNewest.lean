import CodeQuality.Debt
import CodeQuality.Proofs.Exact.LeastSquares

/-!
# Where debt is heading

`DebtTrend.of_compares`: in exact arithmetic, the trend of a history of debts tells whether the newest of
them is more than one above the third newest, more than one below it, or neither. No other debt is of any
account.

The trend is told from the slope of the last three debts, and the slope of three values is half of what the
last one is above the first (`Exact.slope_three`): the middle one stands at the mean of the positions, where
it pulls the line neither up nor down.
-/

namespace CodeQuality

open Exact

theorem exists_eq_append_three {τ : Type} {xs : List τ} (h : 3 ≤ xs.length) :
    ∃ older a b c, xs = older ++ [a, b, c] := by
  have hlength : (xs.drop (xs.length - 3)).length = 3 := by
    rw [List.length_drop]
    omega
  obtain ⟨a, b, c, hlast⟩ := List.length_eq_three.1 hlength
  refine ⟨xs.take (xs.length - 3), a, b, c, ?_⟩
  rw [← hlast, List.take_append_drop]

namespace DebtTrend

/-- The trend that leads back. -/
def opposite : DebtTrend → DebtTrend
  | increasing => decreasing
  | decreasing => increasing
  | stable => stable

/-- The trend of a change of debts over two steps. -/
noncomputable def ofChange (change : ℝ) : DebtTrend :=
  if 1 < change then increasing else if change < -1 then decreasing else stable

/-- The trend tells how the newest of some debts, the oldest first, compares with the third newest. -/
structure Compares (debts : List ℝ) (trend : DebtTrend) : Prop where
  increasing : trend = .increasing ↔
    ∃ _ : 3 ≤ debts.length, 1 < debts[debts.length - 1] - debts[debts.length - 3]
  decreasing : trend = .decreasing ↔
    ∃ _ : 3 ≤ debts.length, debts[debts.length - 1] - debts[debts.length - 3] < -1
  stable : trend = .stable ↔
    ∀ _ : 3 ≤ debts.length, |debts[debts.length - 1] - debts[debts.length - 3]| ≤ 1

theorem opposite_eq_increasing_iff (trend : DebtTrend) :
    trend.opposite = increasing ↔ trend = decreasing := by
  cases trend <;> simp [opposite]

theorem ofChange_eq_increasing_iff (change : ℝ) : ofChange change = increasing ↔ 1 < change := by
  unfold ofChange
  by_cases hup : 1 < change
  · simp [hup]
  · by_cases hdown : change < -1
    · simp [hup, hdown]
    · simp [hup, hdown]

theorem ofChange_neg (change : ℝ) : ofChange (-change) = (ofChange change).opposite := by
  unfold ofChange
  by_cases hup : 1 < change
  · rw [if_neg (by linarith), if_pos (by linarith), if_pos hup, opposite]
  · by_cases hdown : change < -1
    · rw [if_pos (by linarith), if_neg hup, if_pos hdown, opposite]
    · rw [if_neg (by linarith), if_neg (by linarith), if_neg hup, if_neg hdown, opposite]

theorem ofChange_eq_decreasing_iff (change : ℝ) : ofChange change = decreasing ↔ change < -1 := by
  have hneg := ofChange_eq_increasing_iff (-change)
  rw [ofChange_neg, opposite_eq_increasing_iff] at hneg
  rw [hneg]
  exact lt_neg

theorem ofChange_eq_stable_iff (change : ℝ) : ofChange change = stable ↔ |change| ≤ 1 := by
  rw [abs_le]
  unfold ofChange
  by_cases hup : 1 < change
  · simp [hup]
  · by_cases hdown : change < -1
    · simp [hup, hdown]
    · have hbounds : -1 ≤ change ∧ change ≤ 1 := ⟨not_lt.1 hdown, not_lt.1 hup⟩
      simp [hup, hdown, hbounds]

theorem of_append_three (older : List ℝ) (a b c : ℝ) :
    of (older ++ [a, b, c]) = ofChange (c - a) := by
  have hlength : ¬ (older ++ [a, b, c]).length < 3 := by simp
  have hlatest : latest 3 (older ++ [a, b, c]) = [a, b, c] := by simp [latest]
  have hhalf : (0.5 : ℝ) = 1 / 2 := by norm_num
  rw [of, if_neg hlength, hlatest, slope_three, ofChange, hhalf]
  have hup : 1 / 2 < (c - a) / 2 ↔ 1 < c - a := by constructor <;> intro h <;> linarith
  have hdown : (c - a) / 2 < -(1 / 2) ↔ c - a < -1 := by constructor <;> intro h <;> linarith
  simp only [hup, hdown]

theorem compares_of (debts : List ℝ) : Compares debts (of debts) := by
  by_cases hlength : 3 ≤ debts.length
  · obtain ⟨older, a, b, c, rfl⟩ := exists_eq_append_three hlength
    have hnewest : (older ++ [a, b, c])[(older ++ [a, b, c]).length - 1] = c := by simp
    have hthird : (older ++ [a, b, c])[(older ++ [a, b, c]).length - 3] = a := by simp
    constructor
    · simp only [hnewest, hthird, hlength, exists_true_left, of_append_three, ofChange_eq_increasing_iff]
    · simp only [hnewest, hthird, hlength, exists_true_left, of_append_three, ofChange_eq_decreasing_iff]
    · simp only [hnewest, hthird, hlength, forall_true_left, of_append_three, ofChange_eq_stable_iff]
  · have hstable : of debts = .stable := if_pos (by omega)
    constructor
    · simp [hstable, hlength]
    · simp [hstable, hlength]
    · simp [hstable, hlength]

/-- **The newest debt is compared with the third newest.** The trend of debts in the past, and that of a run
which adds its own debt to them, tells whether the newest debt is more than one above the third newest or
more than one below it, and is stable otherwise or if there are fewer than three. So neither the middle one
of the last three nor an older one has a say in it, and three debts in reverse have the opposite trend. -/
theorem of_compares :
    (∀ debts : List ℝ, Compares debts (of debts)) ∧
      (∀ (older older' : List ℝ) (a b b' c : ℝ),
        of (older ++ [a, b, c]) = of (older' ++ [a, b', c])) ∧
      (∀ a b c : ℝ, of [a, b, c].reverse = (of [a, b, c]).opposite) ∧
      ∀ (team : ℕ) (issues : List Issue) (lines : ℕ) (debts : List ℝ),
        Compares (debts ++ [(Debt.estimate team issues lines debts).hours])
          (Debt.estimate team issues lines debts).trend := by
  refine ⟨compares_of, ?_, ?_, ?_⟩
  · intro older older' a b b' c
    rw [of_append_three, of_append_three]
  · intro a b c
    have hforth := of_append_three [] a b c
    have hback := of_append_three [] c b a
    rw [List.nil_append] at hforth hback
    show of [c, b, a] = _
    rw [hforth, hback, ← neg_sub, ofChange_neg]
  · intro team issues lines debts
    exact compares_of (debts ++ [totalHours issues])

end DebtTrend

end CodeQuality
