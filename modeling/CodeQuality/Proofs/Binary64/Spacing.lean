import CodeQuality.Proofs.Binary64.Range

/-!
# Spacing of numbers

How far a result is from zero, if it is not zero. `Spaced x p t` says that `x` is a number of at most
`2 ^ p` and a multiple of `2 ^ t`. Sums, differences and products of such numbers are multiples again,
before and after the rounding (`Nearest.multiple`), so that a difference of large numbers is either
zero or at least `2 ^ t`.
-/

namespace CodeQuality.Binary64

open Float.Model Float.Model.UnpackedFloat Scalar

/-- `r` is a multiple of `2 ^ t`. -/
def Multiple (t : ℤ) (r : ℚ) : Prop := ∃ m : ℤ, r = m * 2 ^ t

section multiple

variable {r s : ℚ} {t u : ℤ}

theorem Multiple.zero : Multiple t 0 := ⟨0, by simp⟩

theorem Multiple.intCast (n : ℤ) : Multiple 0 n := ⟨n, by simp⟩

theorem Multiple.add (hr : Multiple t r) (hs : Multiple t s) : Multiple t (r + s) := by
  obtain ⟨m, rfl⟩ := hr
  obtain ⟨n, rfl⟩ := hs
  exact ⟨m + n, by push_cast; ring⟩

theorem Multiple.neg (hr : Multiple t r) : Multiple t (-r) := by
  obtain ⟨m, rfl⟩ := hr
  exact ⟨-m, by push_cast; ring⟩

theorem Multiple.sub (hr : Multiple t r) (hs : Multiple t s) : Multiple t (r - s) := by
  rw [sub_eq_add_neg]
  exact hr.add hs.neg

theorem Multiple.mul (hr : Multiple t r) (hs : Multiple u s) : Multiple (t + u) (r * s) := by
  obtain ⟨m, rfl⟩ := hr
  obtain ⟨n, rfl⟩ := hs
  refine ⟨m * n, ?_⟩
  rw [two_zpow_add]
  push_cast
  ring

theorem Multiple.le_abs (hr : Multiple t r) (hne : r ≠ 0) : 2 ^ t ≤ |r| := by
  obtain ⟨m, rfl⟩ := hr
  have hm : m ≠ 0 := fun h => hne (by simp [h])
  have hone : (1 : ℚ) ≤ |(m : ℚ)| := by exact_mod_cast Int.one_le_abs hm
  rw [abs_mul, abs_of_pos (two_zpow_pos t)]
  exact le_mul_of_one_le_left (two_zpow_pos t).le hone

theorem OnGrid.multiple_of_le (hr : OnGrid r) (hlarge : (2 : ℚ) ^ (t + 53) ≤ |r|) : Multiple t r := by
  obtain ⟨m, q, hm, -, rfl⟩ := hr
  have hm' : |(m : ℚ)| ≤ 2 ^ (53 : ℤ) := by exact_mod_cast hm
  have hplace : (2 : ℚ) ^ (t + 53) ≤ 2 ^ (53 + q) := by
    calc (2 : ℚ) ^ (t + 53) ≤ |(m : ℚ)| * 2 ^ q := by rwa [abs_mul, abs_of_pos (two_zpow_pos q)] at hlarge
      _ ≤ 2 ^ (53 : ℤ) * 2 ^ q := mul_le_mul_of_nonneg_right hm' (two_zpow_pos q).le
      _ = 2 ^ (53 + q) := (two_zpow_add 53 q).symm
  have hle : t ≤ q := by
    have := (zpow_le_zpow_iff_right₀ (by norm_num : (1 : ℚ) < 2)).1 hplace
    omega
  obtain ⟨d, rfl⟩ := Int.le.dest hle
  refine ⟨m * 2 ^ d, ?_⟩
  rw [two_zpow_add, zpow_natCast]
  push_cast
  ring

/-- Rounding keeps multiples: small ones are on the grid, and near large ones it is as coarse. -/
theorem Nearest.multiple (h : Nearest r s) (hr : Multiple t r) (ht : -1074 ≤ t) : Multiple t s := by
  obtain ⟨m, rfl⟩ := id hr
  by_cases hm : |m| ≤ 2 ^ 53
  · rw [h.eq_of_onGrid ⟨m, t, hm, ht, rfl⟩]
    exact hr
  · apply h.onGrid.multiple_of_le
    have hgrid : OnGrid ((2 : ℚ) ^ (t + 53)) := OnGrid.two_zpow (by omega)
    have hpower : (2 : ℚ) ^ (t + 53) = 2 ^ 53 * 2 ^ t := by
      rw [two_zpow_add, mul_comm]
      norm_cast
    have hpos := two_zpow_pos t
    rcases le_or_gt 0 m with hsign | hsign
    · rw [abs_of_nonneg hsign] at hm
      have hm' : (2 : ℚ) ^ 53 ≤ m := by exact_mod_cast (not_le.1 hm).le
      have hle : (2 : ℚ) ^ (t + 53) ≤ m * 2 ^ t := by
        rw [hpower]
        exact mul_le_mul_of_nonneg_right hm' hpos.le
      exact (h.le_of_ge hgrid hle).trans (le_abs_self s)
    · rw [abs_of_neg hsign] at hm
      have hm' : (2 : ℚ) ^ 53 ≤ -m := by exact_mod_cast (not_le.1 hm).le
      have hle : (m : ℚ) * 2 ^ t ≤ -2 ^ (t + 53) := by
        rw [hpower, ← neg_mul]
        exact mul_le_mul_of_nonneg_right (by linarith) hpos.le
      have hs := h.le_of_le hgrid.neg hle
      exact (le_neg_of_le_neg hs).trans (neg_le_abs s)

end multiple

/-! ## Spaced numbers -/

/-- `x` is a number of at most `2 ^ p` and a multiple of `2 ^ t`. -/
def Spaced (x : Float) (p : ℕ) (t : ℤ) : Prop := ∃ r, Denotes x r ∧ |r| ≤ 2 ^ p ∧ Multiple t r

section spaced

variable {x y : Float} {r s : ℚ} {p q : ℕ} {t u : ℤ}

theorem Spaced.within (h : Spaced x p t) : Within x p := by
  obtain ⟨r, hr, hle, -⟩ := h
  exact ⟨r, hr, hle⟩

theorem Spaced.mono (h : Spaced x p t) (hpq : p ≤ q) : Spaced x q t := by
  obtain ⟨r, hr, hle, hmultiple⟩ := h
  exact ⟨r, hr, hle.trans (pow_le_pow_right₀ (by norm_num) hpq), hmultiple⟩

theorem RoundsTo.spaced (h : RoundsTo x r) (hx : Within x p) (hr : Multiple t r) (ht : -1074 ≤ t) :
    Spaced x p t := by
  obtain ⟨y, hy, hle⟩ := hx
  exact ⟨y, hy, hle, (h.nearest hy).multiple hr ht⟩

theorem Spaced.add (hx : Spaced x p t) (hy : Spaced y p t) (hp : p < 1023) (ht : -1074 ≤ t) :
    Spaced (x + y) (p + 1) t := by
  have hwithin := hx.within.add hy.within hp
  obtain ⟨r, hr, -, hrt⟩ := hx
  obtain ⟨s, hs, -, hst⟩ := hy
  exact (add_roundsTo hr hs).spaced hwithin (hrt.add hst) ht

theorem Spaced.sub (hx : Spaced x p t) (hy : Spaced y p t) (hp : p < 1023) (ht : -1074 ≤ t) :
    Spaced (x - y) (p + 1) t := by
  have hwithin := hx.within.sub hy.within hp
  obtain ⟨r, hr, -, hrt⟩ := hx
  obtain ⟨s, hs, -, hst⟩ := hy
  exact (sub_roundsTo hr hs).spaced hwithin (hrt.sub hst) ht

theorem Spaced.mul (hx : Spaced x p t) (hy : Spaced y q u) (hpq : p + q ≤ 1023)
    (ht : -1074 ≤ t + u) : Spaced (x * y) (p + q) (t + u) := by
  have hwithin := hx.within.mul hy.within hpq
  obtain ⟨r, hr, -, hrt⟩ := hx
  obtain ⟨s, hs, -, hsu⟩ := hy
  exact (mul_roundsTo hr hs).spaced hwithin (hrt.mul hsu) ht

theorem Spaced.add_absorb (hx : Spaced x (p + 55) t) (hy : Spaced y p t) (hp : p + 55 < 1023)
    (ht : -1074 ≤ t) : Spaced (x + y) (p + 55) t := by
  have hwithin := hx.within.add_absorb hy.within hp
  obtain ⟨r, hr, -, hrt⟩ := hx
  obtain ⟨s, hs, -, hst⟩ := hy
  exact (add_roundsTo hr hs).spaced hwithin (hrt.add hst) ht

theorem spaced_zero : Spaced 0.0 p t :=
  ⟨0, denotes_zero, by rw [abs_zero]; positivity, Multiple.zero⟩

theorem spaced_ofNat {n : ℕ} (hn : n ≤ 2 ^ p) (hp : p ≤ 1023) : Spaced (Float.ofNat n) p 0 :=
  (ofNat_roundsTo n).spaced (within_ofNat hn hp) (by exact_mod_cast Multiple.intCast n) (by norm_num)

theorem Denotes.beq_iff (hx : Denotes x r) (hy : Denotes y s) : (x == y) = true ↔ r = s := by
  show ((form x).compare (form y) == some .eq) = true ↔ _
  rw [beq_iff_eq, compare_eq hx.canonical hy.canonical, hx.value_eq, hy.value_eq, Option.some_inj,
    compare_eq_iff_eq]

end spaced

/-! ## Two decimals -/

section hundredths

variable {x : Float} {r : ℚ}

theorem spaced_hundredths (hx : Denotes x r) (h0 : 0 ≤ r) (h100 : r ≤ 100) :
    Spaced (hundredths x) 7 (-60) := by
  have hlarge : |r * 100| ≤ 2 ^ 14 := by
    rw [abs_of_nonneg (by positivity)]
    linarith
  obtain ⟨y, hy, hnearest⟩ :=
    (mul_roundsTo hx denotes_hundred).denotes (le_two_zpow_of_le (by norm_num) hlarge)
  have hgrid : OnGrid 10000 := by exact_mod_cast OnGrid.natCast (n := 10000) (by norm_num)
  have hy0 : 0 ≤ y := hnearest.le_of_ge OnGrid.zero (by positivity)
  have hy1 : y ≤ 10000 := hnearest.le_of_le hgrid (by linarith)
  -- the whole number of hundredths
  obtain ⟨n, hn, hlo, hhi⟩ := exists_int_round hy (by rw [abs_of_nonneg hy0]; linarith)
  have hn0 : 0 ≤ n := (Int.floor_nonneg.2 hy0).trans hlo
  have hn1 : (n : ℚ) ≤ 10000 := by
    exact_mod_cast hhi.trans (Int.ceil_le.2 (by exact_mod_cast hy1))
  have hn0' : (0 : ℚ) ≤ n := by exact_mod_cast hn0
  have hquotient : |(n : ℚ) / 100| ≤ 2 ^ 7 := by
    rw [abs_of_nonneg (by positivity)]
    linarith
  have hdiv := div_roundsTo hn denotes_hundred (by norm_num)
  obtain ⟨z, hz, hznearest⟩ := hdiv.denotes (le_two_zpow_of_le (by norm_num) hquotient)
  have hgrid7 : OnGrid (2 ^ 7) := by exact_mod_cast OnGrid.natCast (n := 2 ^ 7) (by norm_num)
  refine ⟨z, hz, hznearest.abs_le_of_abs_le hgrid7 hquotient, ?_⟩
  rcases hn0.eq_or_lt with rfl | hpos
  · rw [Int.cast_zero, zero_div] at hznearest
    rw [hznearest.eq_of_onGrid OnGrid.zero]
    exact Multiple.zero
  · have hone : (1 : ℚ) ≤ n := by exact_mod_cast hpos
    have hleast : (2 : ℚ) ^ (-7 : ℤ) ≤ n / 100 := by
      norm_num
      linarith
    apply hznearest.onGrid.multiple_of_le
    exact (hznearest.le_of_ge (OnGrid.two_zpow (by norm_num)) hleast).trans (le_abs_self z)

end hundredths

end CodeQuality.Binary64
