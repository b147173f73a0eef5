import CodeQuality.Proofs.Binary64.Whole

/-!
# Sizes of numbers

How far a result is from overflow. `Within x p` says that `x` is a number of at most `2 ^ p`; every
operation hands such a bound on with a larger exponent. A running sum does not even need a larger
exponent, however long it gets: near `2 ^ (p + 55)` a summand of at most `2 ^ p` is rounded away
(`Within.add_absorb`).
-/

namespace CodeQuality.Binary64

open Float.Model Float.Model.UnpackedFloat Scalar

theorem Nearest.le_two_pow {x y : ℚ} (h : Nearest x y) {p : ℕ} (hx : x ≤ 2 ^ (p + 55) + 2 ^ p) :
    y ≤ 2 ^ (p + 55) := by
  have hpos : (0 : ℚ) < 2 ^ p := by positivity
  have hplace : (2 : ℚ) ^ ((p : ℤ) + 3) = 8 * 2 ^ p := by
    rw [two_zpow_add, zpow_natCast]
    norm_num [mul_comm]
  have hpower : (2 : ℚ) ^ (p + 55) = 2 ^ 55 * 2 ^ p := by rw [pow_add, mul_comm]
  have hgrid : OnGrid ((2 : ℚ) ^ (p + 55)) := by
    rw [← zpow_natCast]
    exact OnGrid.two_zpow (by omega)
  have hnext := h.onGrid.le_or_le (k := 2 ^ 52) (t := (p : ℤ) + 3) (.inr le_rfl)
  rw [hplace] at hnext
  push_cast at hnext
  rcases hnext with hle | hge
  · linarith
  · -- the power itself would be nearer
    have hclosest := h.closest _ hgrid
    rw [hpower] at hx hclosest
    rw [abs_of_nonpos (by linarith)] at hclosest
    rcases le_total x (2 ^ 55 * 2 ^ p) with hbelow | habove
    · rw [abs_of_nonpos (by linarith)] at hclosest
      linarith
    · rw [abs_of_nonneg (by linarith)] at hclosest
      linarith

theorem Nearest.abs_le_two_pow {x y : ℚ} (h : Nearest x y) {p : ℕ}
    (hx : |x| ≤ 2 ^ (p + 55) + 2 ^ p) : |y| ≤ 2 ^ (p + 55) := by
  have hhi := h.le_two_pow (abs_le.1 hx).2
  have hlo := h.neg.le_two_pow (p := p) (by linarith [(abs_le.1 hx).1])
  exact abs_le.2 ⟨by linarith, hhi⟩

/-! ## Numbers within a range -/

/-- `x` is a number of at most `2 ^ p`. -/
def Within (x : Float) (p : ℕ) : Prop := ∃ r, Denotes x r ∧ |r| ≤ 2 ^ p

section within

variable {x y : Float} {r s : ℚ} {p q : ℕ}

theorem Within.isFinite (h : Within x p) : Scalar.isFinite x = true := by
  obtain ⟨r, hr, -⟩ := h
  exact (denotes_iff_isFinite x).1 ⟨r, hr⟩

theorem Denotes.within (hx : Denotes x r) : Within x 1024 := by
  refine ⟨r, hx, ?_⟩
  rw [← hx.value_eq]
  rcases hx.canonical.zero_or_finite with ⟨s, h⟩ | ⟨s, m, q, hm, h⟩
  · rw [h, value_zero, abs_zero]
    positivity
  · obtain ⟨hcanonical, hq⟩ := canonical_unpack h
    rw [h]
    exact_mod_cast (hcanonical.abs_value_lt_iff.2 hq).le

theorem Denotes.within_of_nonneg (hx : Denotes x r) (h0 : 0 ≤ r) (hle : r ≤ 2 ^ p) : Within x p :=
  ⟨r, hx, by rwa [abs_of_nonneg h0]⟩

theorem within_zero : Within 0.0 p := ⟨0, denotes_zero, by rw [abs_zero]; positivity⟩

theorem Within.mono (h : Within x p) (hpq : p ≤ q) : Within x q := by
  obtain ⟨r, hr, hle⟩ := h
  exact ⟨r, hr, hle.trans (pow_le_pow_right₀ (by norm_num) hpq)⟩

theorem RoundsTo.within (h : RoundsTo x r) (hr : |r| ≤ 2 ^ p) (hp : p ≤ 1023) : Within x p := by
  obtain ⟨y, hy, hnearest⟩ := h.denotes (le_two_zpow_of_le hp hr)
  have hgrid : OnGrid ((2 : ℚ) ^ p) := by
    rw [← zpow_natCast]
    exact OnGrid.two_zpow (by omega)
  exact ⟨y, hy, hnearest.abs_le_of_abs_le hgrid hr⟩

theorem Within.add (hx : Within x p) (hy : Within y p) (hp : p < 1023) : Within (x + y) (p + 1) := by
  obtain ⟨r, hr, hrp⟩ := hx
  obtain ⟨s, hs, hsp⟩ := hy
  refine (add_roundsTo hr hs).within ?_ hp
  calc |r + s| ≤ |r| + |s| := abs_add_le r s
    _ ≤ 2 ^ p + 2 ^ p := add_le_add hrp hsp
    _ = 2 ^ (p + 1) := by ring

theorem Within.neg (hx : Within x p) : Within (-x) p := by
  obtain ⟨r, hr, hrp⟩ := hx
  exact ⟨-r, neg_denotes hr, by rwa [abs_neg]⟩

theorem Within.sub (hx : Within x p) (hy : Within y p) (hp : p < 1023) : Within (x - y) (p + 1) := by
  obtain ⟨r, hr, hrp⟩ := hx
  obtain ⟨s, hs, hsp⟩ := hy
  refine (sub_roundsTo hr hs).within ?_ hp
  calc |r - s| ≤ |r| + |s| := abs_sub r s
    _ ≤ 2 ^ p + 2 ^ p := add_le_add hrp hsp
    _ = 2 ^ (p + 1) := by ring

theorem Within.mul (hx : Within x p) (hy : Within y q) (hpq : p + q ≤ 1023) :
    Within (x * y) (p + q) := by
  obtain ⟨r, hr, hrp⟩ := hx
  obtain ⟨s, hs, hsq⟩ := hy
  refine (mul_roundsTo hr hs).within ?_ hpq
  rw [abs_mul, pow_add]
  exact mul_le_mul hrp hsq (abs_nonneg s) (by positivity)

theorem Within.div (hx : Within x p) (hy : Denotes y s) (hs : 1 ≤ s) (hp : p ≤ 1023) :
    Within (x / y) p := by
  obtain ⟨r, hr, hrp⟩ := hx
  have hpos : 0 < s := by linarith
  refine (div_roundsTo hr hy hpos.ne').within ?_ hp
  rw [abs_div, abs_of_pos hpos]
  exact (div_le_self (abs_nonneg r) hs).trans hrp

/-- A small summand does not take a sum beyond a much larger power of two. -/
theorem Within.add_absorb (hx : Within x (p + 55)) (hy : Within y p) (hp : p + 55 < 1023) :
    Within (x + y) (p + 55) := by
  obtain ⟨r, hr, hrp⟩ := hx
  obtain ⟨s, hs, hsp⟩ := hy
  have hsum : |r + s| ≤ 2 ^ (p + 55) + 2 ^ p := (abs_add_le r s).trans (add_le_add hrp hsp)
  have hlarge : (2 : ℚ) ^ p ≤ 2 ^ (p + 55) := pow_le_pow_right₀ (by norm_num) (by omega)
  have hdouble : |r + s| ≤ 2 ^ (p + 56) := by
    calc |r + s| ≤ 2 ^ (p + 55) + 2 ^ (p + 55) := by linarith
      _ = 2 ^ (p + 56) := by ring
  obtain ⟨z, hz, hnearest⟩ := (add_roundsTo hr hs).denotes (le_two_zpow_of_le (by omega) hdouble)
  exact ⟨z, hz, hnearest.abs_le_two_pow hsum⟩

theorem Within.foldl_add {τ : Type} {f : τ → Float} {xs : List τ} {sum : Float}
    (hsum : Within sum (p + 55)) (h : ∀ x ∈ xs, Within (f x) p) (hp : p + 55 < 1023) :
    Within (xs.foldl (fun s x => s + f x) sum) (p + 55) := by
  induction xs generalizing sum with
  | nil => exact hsum
  | cons x xs ih =>
    rw [List.foldl_cons]
    exact ih (hsum.add_absorb (h x List.mem_cons_self) hp) fun y hy => h y (List.mem_cons_of_mem _ hy)

theorem within_neg_zero : Within (-0.0) 0 := ⟨-0, neg_denotes denotes_zero, by norm_num⟩

theorem within_total {xs : List Float} (h : ∀ x ∈ xs, Within x p) (hp : p + 55 < 1023) :
    Within (total xs) (p + 55) :=
  (within_neg_zero.mono (Nat.zero_le _)).foldl_add h hp

theorem within_of_between {lo hi : Float} (hlo : Within lo p) (hhi : Within hi p) (hx : lo ≤ x)
    (hx' : x ≤ hi) : Within x p := by
  obtain ⟨a, ha, hap⟩ := hlo
  obtain ⟨b, hb, hbp⟩ := hhi
  obtain ⟨r, hr, har, hrb⟩ := denotes_of_between ha hb hx hx'
  refine ⟨r, hr, abs_le.2 ⟨?_, ?_⟩⟩
  · linarith [(abs_le.1 hap).1]
  · linarith [(abs_le.1 hbp).2]

theorem within_literal (h : (-1000.0 : Float) ≤ x ∧ x ≤ 1000.0) : Within x 10 := by
  have hthousand : Within 1000.0 10 :=
    (denotes_literal (n := 1000) (by norm_num)).within_of_nonneg (by norm_num) (by norm_num)
  exact within_of_between hthousand.neg hthousand h.1 h.2

theorem within_hundred : Within 100.0 10 := within_literal (by decide +kernel)

theorem within_ofNat {n : ℕ} (hn : n ≤ 2 ^ p) (hp : p ≤ 1023) : Within (Float.ofNat n) p := by
  refine (ofNat_roundsTo n).within ?_ hp
  rw [Nat.abs_cast]
  exact_mod_cast hn

theorem one_le_ofNat {n : ℕ} (hn : 1 ≤ n) (hp : n ≤ 2 ^ 64) :
    ∃ s, Denotes (Float.ofNat n) s ∧ 1 ≤ s := by
  have hbound : |(n : ℚ)| ≤ 2 ^ 64 := by
    rw [Nat.abs_cast]
    exact_mod_cast hp
  obtain ⟨s, hs, hnearest⟩ := (ofNat_roundsTo n).denotes (le_two_zpow_of_le (by norm_num) hbound)
  exact ⟨s, hs, hnearest.le_of_ge OnGrid.one (by exact_mod_cast hn)⟩

theorem within_mean {xs : List Float} (h : ∀ x ∈ xs, Within x p) (hp : p + 55 < 1023)
    (hlength : xs.length ≤ 2 ^ 64) : Within (mean xs) (p + 55) := by
  unfold mean
  split
  next => exact within_zero
  next hne =>
    have hpos : 1 ≤ xs.length := List.length_pos_of_ne_nil (by simpa using hne)
    obtain ⟨s, hs, hone⟩ := one_le_ofNat hpos hlength
    exact (within_total h hp).div hs hone (by omega)

theorem larger_eq_or (x y : Float) : larger x y = x ∨ larger x y = y := by
  unfold larger
  split
  · exact .inr rfl
  · split
    · exact .inl rfl
    · exact .inr rfl

theorem smaller_eq_or (x y : Float) : smaller x y = x ∨ smaller x y = y := by
  unfold smaller
  split
  · exact .inr rfl
  · split
    · exact .inl rfl
    · exact .inr rfl

theorem Within.larger (hx : Within x p) (hy : Within y p) : Within (larger x y) p := by
  rcases larger_eq_or x y with h | h <;> rw [h] <;> assumption

theorem Within.smaller (hx : Within x p) (hy : Within y p) : Within (smaller x y) p := by
  rcases smaller_eq_or x y with h | h <;> rw [h] <;> assumption

theorem Within.magnitude (hx : Within x p) : Within (magnitude x) p := by
  obtain ⟨r, hr, hrp⟩ := hx
  exact ⟨|r|, denotes_magnitude hr, by rwa [abs_abs]⟩

theorem Within.round (hx : Within x p) : Within (Binary64.round x) p := by
  obtain ⟨r, hr, hrp⟩ := hx
  obtain ⟨w, hw, hlo, hhi⟩ := round_denotes hr
  have hceil : ⌈r⌉ ≤ (2 ^ p : ℤ) := Int.ceil_le.2 (by push_cast; exact (abs_le.1 hrp).2)
  have hfloor : -(2 ^ p : ℤ) ≤ ⌊r⌋ := Int.le_floor.2 (by push_cast; exact (abs_le.1 hrp).1)
  refine ⟨w, hw, abs_le.2 ⟨le_trans ?_ hlo, hhi.trans ?_⟩⟩
  · exact_mod_cast hfloor
  · exact_mod_cast hceil

theorem Within.hundredths (hx : Within x p) (hp : p + 10 ≤ 1023) :
    Within (hundredths x) (p + 10) := by
  have hround : Within (Binary64.round (x * 100.0)) (p + 10) := (hx.mul within_hundred hp).round
  exact hround.div denotes_hundred (by norm_num) hp

end within

end CodeQuality.Binary64
