import CodeQuality.Number.Statistics
import CodeQuality.Proofs.Binary64.Defined
import CodeQuality.Proofs.Binary64.Root
import CodeQuality.Proofs.Binary64.Spacing

/-!
# Statistics of stored scores

The slope and the deviation of a series of scores are numbers, far from overflow, and a slope that is
positive is not tiny (`denotes_slope`, `within_deviation`). Stored scores have two decimals, so that
what the slope divides is a multiple of `2 ^ (-60)`, and what it divides by is a whole number.
-/

namespace CodeQuality.Binary64

open Scalar

/-! ## Sums of a regression line -/

/-- The sums of a series of scores, each with its bound and its spacing. -/
structure SumsSpaced (s : LineSums Float) : Prop where
  x : Spaced s.x 119 0
  y : Spaced s.y 62 (-60)
  xy : Spaced s.xy 126 (-60)
  xx : Spaced s.xx 183 0

theorem sumsSpaced_of {ys : List Float} (hlength : ys.length ≤ 2 ^ 64)
    (h : ∀ y ∈ ys, Spaced y 7 (-60)) : SumsSpaced (LineSums.of ys) := by
  induction ys using List.reverseRecOn with
  | nil => exact ⟨spaced_zero, spaced_zero, spaced_zero, spaced_zero⟩
  | append_singleton ys y ih =>
    rw [List.length_append, List.length_singleton] at hlength
    have hs := ih (by omega) fun z hz => h z (List.mem_append_left _ hz)
    have hx : Spaced (Float.ofNat ys.length) 64 0 := spaced_ofNat (by omega) (by norm_num)
    have hy : Spaced y 7 (-60) := h y (by simp)
    rw [LineSums.of_concat]
    constructor
    · exact hs.x.add_absorb hx (by norm_num) (by norm_num)
    · exact hs.y.add_absorb hy (by norm_num) (by norm_num)
    · exact hs.xy.add_absorb (hx.mul hy (by norm_num) (by norm_num)) (by norm_num) (by norm_num)
    · exact hs.xx.add_absorb (hx.mul hx (by norm_num) (by norm_num)) (by norm_num) (by norm_num)

/-! ## The slope -/

theorem denotes_slope {ys : List Float} (hlength : ys.length ≤ 2 ^ 64)
    (h : ∀ y ∈ ys, Spaced y 7 (-60)) :
    ∃ r, Denotes (Scalar.slope ys) r ∧ |r| ≤ 2 ^ 191 ∧ (0 < r → 2 ^ (-308 : ℤ) ≤ r) := by
  have hzero : ∃ r, Denotes 0.0 r ∧ |r| ≤ 2 ^ 191 ∧ (0 < r → 2 ^ (-308 : ℤ) ≤ r) :=
    ⟨0, denotes_zero, by norm_num, fun h => absurd h (lt_irrefl 0)⟩
  unfold Scalar.slope
  split
  · exact hzero
  have hsums := sumsSpaced_of hlength h
  have hn : Spaced (Float.ofNat ys.length) 64 0 := spaced_ofNat hlength (by norm_num)
  have hnxx := (hn.mul hsums.xx (by norm_num) (by norm_num)).mono (q := 247) (by norm_num)
  have hxx := (hsums.x.mul hsums.x (by norm_num) (by norm_num)).mono (q := 247) (by norm_num)
  have hnxy := (hn.mul hsums.xy (by norm_num) (by norm_num)).mono (q := 190) (by norm_num)
  have hxy := (hsums.x.mul hsums.y (by norm_num) (by norm_num)).mono (q := 190) (by norm_num)
  obtain ⟨d, hd, hdle, hdmultiple⟩ := hnxx.sub hxx (by norm_num) (by norm_num)
  obtain ⟨a, ha, hale, hamultiple⟩ := hnxy.sub hxy (by norm_num) (by norm_num)
  simp only
  split
  · exact hzero
  next hne =>
    have hd0 : d ≠ 0 := mt (hd.beq_iff denotes_zero).2 hne
    have hd1 : 1 ≤ |d| := hdmultiple.le_abs hd0
    have hquotient : |a / d| ≤ 2 ^ 191 := by
      rw [abs_div]
      exact (div_le_self (abs_nonneg a) hd1).trans hale
    have hgrid : OnGrid (2 ^ 191) := by exact_mod_cast OnGrid.two_zpow (q := 191) (by norm_num)
    have hdiv := div_roundsTo ha hd hd0
    obtain ⟨r, hr, hnearest⟩ := hdiv.denotes (le_two_zpow_of_le (by norm_num) hquotient)
    refine ⟨r, hr, hnearest.abs_le_of_abs_le hgrid hquotient, ?_⟩
    intro hpos
    -- a quotient that is not positive would not have been rounded to a positive number
    have hpos' : 0 < a / d := by
      by_contra hnot
      exact absurd (hnearest.le_of_le OnGrid.zero (not_lt.1 hnot)) (not_le.2 hpos)
    have ha0 : a ≠ 0 := fun h => by simp [h] at hpos'
    have hleast : (2 : ℚ) ^ (-308 : ℤ) ≤ a / d := by
      rw [← abs_of_pos hpos', abs_div, le_div_iff₀ (by linarith)]
      calc (2 : ℚ) ^ (-308 : ℤ) * |d| ≤ 2 ^ (-308 : ℤ) * 2 ^ 248 :=
            mul_le_mul_of_nonneg_left hdle (two_zpow_pos _).le
        _ = 2 ^ (-60 : ℤ) := by
            rw [← zpow_natCast, ← two_zpow_add]
            congr 1
        _ ≤ |a| := hamultiple.le_abs ha0
    exact hnearest.le_of_ge (OnGrid.two_zpow (by norm_num)) hleast

/-! ## The deviation -/

theorem within_deviation {xs : List Float} (hlength : xs.length ≤ 2 ^ 64)
    (h : ∀ x ∈ xs, Within x 7) : Within (deviation xs) 182 := by
  unfold deviation
  split
  · exact within_zero
  next hne =>
    have hmean := within_mean h (by norm_num) hlength
    have hdistance : ∀ x ∈ xs, Within (x - mean xs) 63 := fun x hx =>
      ((h x hx).mono (q := 62) (by norm_num)).sub hmean (by norm_num)
    have hsquares : ∀ y ∈ xs.map fun x => (x - mean xs) * (x - mean xs), Nonneg y ∧ Within y 126 := by
      intro y hy
      obtain ⟨x, hx, rfl⟩ := List.mem_map.1 hy
      have hwithin := (hdistance x hx).mul (hdistance x hx) (by norm_num)
      obtain ⟨r, hr, -⟩ := hdistance x hx
      exact ⟨nonneg_mul_self hr, hwithin⟩
    have hpos : 1 ≤ xs.length := List.length_pos_of_ne_nil (by simpa using hne)
    obtain ⟨n, hn, hone⟩ := one_le_ofNat hpos hlength
    have hvariance := (within_total (fun y hy => (hsquares y hy).2) (by norm_num)).div hn hone
      (by norm_num)
    have hnonneg := (nonneg_total fun y hy => (hsquares y hy).1).div hn (by linarith)
    obtain ⟨v, hv, hv0, hv1⟩ := hnonneg.denotes hvariance
    exact hv.within_sqrt hv0 hv1 (by norm_num)

end CodeQuality.Binary64
