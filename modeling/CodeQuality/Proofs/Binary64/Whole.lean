import CodeQuality.Number.Statistics
import CodeQuality.Proofs.Binary64.Product

/-!
# Whole numbers and two decimals

Counts become numbers (`ofNat_roundsTo`) and numbers become counts (`toUInt64_eq`). `round_denotes`:
rounding to a whole number does not cross one.

The number at two decimals is reached through a product, a rounding and a quotient, each of which
rounds. None of the three crosses what it maps a whole number of hundredths to, so that the result
stays on its side of such a number: `hundredths_le`, `le_hundredths`.
-/

namespace CodeQuality.Binary64

open Float.Model Float.Model.UnpackedFloat Scalar

/-! ## Counts -/

section counts

variable {x : Float} {r : ℚ}

theorem abs_denotes (hx : Denotes x r) : Denotes x.abs |r| := by
  have hform : form x.abs = (Float.Model.pack (form x).abs).unpack := rfl
  obtain ⟨hcanonical, rfl⟩ := hx
  rcases hcanonical.zero_or_finite with ⟨s, h⟩ | ⟨s, m, q, hm, h⟩
  · rw [h] at hform ⊢
    rw [value_zero, abs_zero]
    exact .of_form (hform.trans (unpack_pack_zero .positive)) trivial
  · have hfit := canonical_unpack h
    have habs : |value (form x)| = value (.finite .positive m q hm) := by
      rw [h]
      cases s with
      | positive => exact abs_of_pos (value_pos hm)
      | negative => exact (abs_of_neg (value_lt_zero hm)).trans (neg_neg _)
    have hcanonical' : Canonical (.finite .positive m q hm) := hfit.1
    rw [h, UnpackedFloat.abs, unpack_pack_finite hcanonical', if_pos hfit.2] at hform
    rw [habs]
    exact .of_form hform hcanonical'

theorem roundToInt_eq (m : ℕ) (q : ℤ) :
    roundToInt .positive m q = (⌊(m : ℚ) * 2 ^ q⌋₊ : ℤ) := by
  obtain ⟨k, hk⟩ : ∃ k, (0 - (decreaseExponent m q 0).2).toNat = k := ⟨_, rfl⟩
  have hexponent : (decreaseExponent m q 0).2 = -(k : ℤ) := by
    simp only [decreaseExponent] at hk ⊢
    omega
  have hvalue : (m : ℚ) * 2 ^ q = ((decreaseExponent m q 0).1 : ℚ) / (2 ^ k : ℕ) := by
    rw [← value_decreaseExponent m q 0, hexponent, zpow_neg, zpow_natCast]
    push_cast
    rfl
  show ((ExtendedMantissa.ofMantissaAndAccuracy (decreaseExponent m q 0).1 .exact >>>
    (0 - (decreaseExponent m q 0).2).toNat).mantissa : ℤ) = _
  rw [mantissa_shiftRight, mantissa_ofMantissaAndAccuracy, hk, hvalue, Nat.floor_div_eq_div]

theorem toNat_toInt {u : UnpackedFloat} (hu : Canonical u) (lo hi : ℤ) :
    (u.toInt lo hi).toNat = ⌊value u⌋₊ := by
  rcases hu.zero_or_finite with ⟨s, rfl⟩ | ⟨s, m, q, hm, rfl⟩
  · simp [toInt]
  · have hwhole := roundToInt_eq m q
    cases s with
    | positive =>
      rw [toInt, hwhole]
      rfl
    | negative =>
      have hneg : roundToInt .negative m q = -roundToInt .positive m q := rfl
      rw [toInt, hneg, hwhole, Nat.floor_of_nonpos (value_lt_zero hm).le]
      omega

theorem toUInt64_eq (hx : Denotes x r) : x.toUInt64.toNat = min ⌊r⌋₊ (2 ^ 64 - 1) := by
  have hdef : x.toUInt64 = UInt64.ofNatClamp ((form x).toInt 0 (UInt64.size - 1)).toNat := rfl
  rw [hdef, toNat_toInt hx.canonical, hx.value_eq, UInt64.ofNatClamp]
  split
  next h =>
    rw [UInt64.toNat_ofNatLT]
    simp only [UInt64.size] at h
    omega
  next h =>
    rw [UInt64.toNat_ofNatLT]
    simp only [UInt64.size] at h ⊢
    omega

theorem toFloat_roundsTo (n : UInt64) : RoundsTo n.toFloat n.toNat := by
  have hrounds := normalize_rounds n.toNat 0 .positive
  rw [zpow_zero, mul_one, Int.cast_natCast] at hrounds
  exact pack_roundsTo hrounds

theorem le_two_zpow_of_le {k : ℕ} (hk : k ≤ 1023) (h : |r| ≤ 2 ^ k) : |r| ≤ 2 ^ (1023 : ℤ) := by
  rw [← zpow_natCast] at h
  exact h.trans (zpow_le_zpow_right₀ (by norm_num) (by exact_mod_cast hk))

theorem RoundsTo.denotes_natCast {n : ℕ} (h : RoundsTo x n) (hn : n ≤ 2 ^ 53) : Denotes x n := by
  refine h.eq_of_onGrid (le_two_zpow_of_le (k := 53) (by norm_num) ?_) (OnGrid.natCast hn)
  rw [Nat.abs_cast]
  exact_mod_cast hn

theorem toFloat_denotes {n : UInt64} (hn : n.toNat ≤ 2 ^ 53) : Denotes n.toFloat n.toNat :=
  (toFloat_roundsTo n).denotes_natCast hn

theorem Denotes.of_full {s : Sign} {m : ℕ} {q : ℤ} {hm : 0 < m} (h : form x = .finite s m q hm)
    (hdigits : 2 ^ 52 ≤ m ∧ m < 2 ^ 53) (hq : -1074 ≤ q) (hr : signed s (m * 2 ^ q) = r) :
    Denotes x r := by
  subst hr
  exact .of_form h ⟨hdigits.2, hq, .inl hdigits.1⟩

theorem denotes_half : Denotes 0.5 (1 / 2) :=
  .of_full (s := .positive) (m := 2 ^ 52) (q := -53) rfl (by norm_num) (by norm_num)
    (by norm_num [signed])

theorem denotes_ten : Denotes (Float.ofBits 0x4024000000000000) 10 :=
  .of_full (s := .positive) (m := 5 * 2 ^ 50) (q := -49) rfl (by norm_num) (by norm_num)
    (by norm_num [signed])

theorem denotes_literal {n : ℕ} (hn : n * 10 < 2 ^ 53) :
    Denotes (OfScientific.ofScientific (n * 10) true 1) n := by
  have hfast : (OfScientific.ofScientific (n * 10) true 1 : Float) =
      (n * 10).toUInt64.toFloat / Float.ofBits 0x4024000000000000 := by
    show Float.ofScientific (n * 10) true 1 = _
    rw [Float.ofScientific, dif_pos ⟨hn, by norm_num⟩]
    rfl
  have hnat : (n * 10).toUInt64.toNat = n * 10 := by
    show (UInt64.ofNat (n * 10)).toNat = n * 10
    rw [UInt64.toNat_ofNat', Nat.mod_eq_of_lt (by omega)]
  have hdenotes := toFloat_denotes (n := (n * 10).toUInt64) (by omega)
  rw [hnat] at hdenotes
  have hquotient := div_roundsTo hdenotes denotes_ten (by norm_num)
  rw [Nat.cast_mul, Nat.cast_ofNat, mul_div_cancel_right₀ _ (by norm_num)] at hquotient
  exact hfast ▸ hquotient.denotes_natCast (by omega)

theorem denotes_hundred : Denotes 100.0 100 := denotes_literal (n := 100) (by norm_num)

theorem denotes_two_pow_52 : Denotes 4503599627370496.0 (2 ^ 52) :=
  .of_full (s := .positive) (m := 2 ^ 52) (q := 0) rfl (by norm_num) (by norm_num)
    (by norm_num [signed])

theorem ofNat_roundsTo (n : ℕ) : RoundsTo (Float.ofNat n) n := by
  by_cases hn : n < 2 ^ 53
  · have hfast : Float.ofNat n = n.toUInt64.toFloat * 1.0 := by
      show Float.ofScientific n false 0 = _
      rw [Float.ofScientific, dif_pos ⟨hn, by norm_num⟩]
      rfl
    have hnat : n.toUInt64.toNat = n := by
      show (UInt64.ofNat n).toNat = n
      rw [UInt64.toNat_ofNat', Nat.mod_eq_of_lt (by omega)]
    have hdenotes := toFloat_denotes (n := n.toUInt64) (by omega)
    rw [hnat] at hdenotes
    rw [hfast, ← mul_one (n : ℚ)]
    exact mul_roundsTo hdenotes denotes_one
  · have hpos : 0 < n := by omega
    have hslow : Float.ofNat n = .ofModel (.pack
        (roundWithAccuracy Format.binary64 .positive (n <<< 53 * 1) (-53 + 0) .exact)) := by
      show Float.ofScientific n false 0 = _
      rw [Float.ofScientific, dif_neg (by omega)]
      show Float.ofModel (.pack (UnpackedFloat.ofScientific Format.binary64 n 0)) = _
      rw [UnpackedFloat.ofScientific, dif_neg hpos.ne', if_neg (by decide), if_neg (by simp),
        if_pos (le_refl _)]
      rfl
    have htruncates : Truncates (.ofMantissaAndAccuracy (n <<< 53 * 1) .exact)
        ((n : ℚ) / 2 ^ (-53 + 0 : ℤ)) := by
      have hexact := Truncates.of_exact (n <<< 53 * 1)
      convert hexact using 1
      rw [Nat.shiftLeft_eq, div_eq_iff (two_zpow_pos _).ne']
      push_cast
      norm_num
      ring
    have hdigits : (-53 + 0 : ℤ) ≤ lastPlace (n <<< 53 * 1) (-53 + 0) := by
      refine lastPlace_of_le ?_
      rw [Nat.shiftLeft_eq]
      omega
    rw [hslow]
    exact pack_roundsTo (roundWithAccuracy_rounds htruncates hdigits .positive)

theorem denotes_ofNat {n : ℕ} (hn : n ≤ 2 ^ 53) : Denotes (Float.ofNat n) n :=
  (ofNat_roundsTo n).denotes_natCast hn

end counts

/-! ## Rounding to a whole number -/

section whole

variable {x : Float} {r : ℚ}

theorem round_eq_self (h : ¬ x.abs < 4503599627370496.0) : round x = x := if_neg h

theorem near_denotes {a : ℚ} (hx : Denotes x a) (h0 : 0 ≤ a) (hlt : a < 2 ^ 52) :
    ∃ n : ℤ, Denotes (if x - x.toUInt64.toFloat < 0.5 then x.toUInt64.toFloat
        else x.toUInt64.toFloat + 1.0) n ∧ ⌊a⌋ ≤ n ∧ n ≤ ⌈a⌉ := by
  have hfloor : ⌊a⌋₊ < 2 ^ 52 := (Nat.floor_lt h0).2 (by exact_mod_cast hlt)
  have hcount : x.toUInt64.toNat = ⌊a⌋₊ := by
    rw [toUInt64_eq hx]
    omega
  have hcast : (⌊a⌋₊ : ℤ) = ⌊a⌋ := Int.natCast_floor_eq_floor h0
  have hwhole : Denotes x.toUInt64.toFloat (⌊a⌋ : ℤ) := by
    have htoFloat := toFloat_denotes (n := x.toUInt64) (by omega)
    rw [hcount] at htoFloat
    rw [← hcast]
    exact_mod_cast htoFloat
  split
  · exact ⟨⌊a⌋, hwhole, le_refl _, Int.floor_le_ceil a⟩
  next hfar =>
    have hsum : Denotes (x.toUInt64.toFloat + 1.0) ((⌊a⌋ + 1 : ℤ) : ℚ) := by
      have hnext := add_roundsTo hwhole denotes_one
      rw [← Int.cast_one, ← Int.cast_add, ← hcast] at hnext
      have hsmall : |((⌊a⌋₊ + 1 : ℕ) : ℚ)| ≤ 2 ^ 53 := by
        rw [Nat.abs_cast]
        exact_mod_cast (by omega : ⌊a⌋₊ + 1 ≤ 2 ^ 53)
      have hgrid : OnGrid ((⌊a⌋₊ + 1 : ℕ) : ℚ) := OnGrid.natCast (by omega)
      rw [← hcast]
      push_cast at hnext hsmall hgrid ⊢
      exact hnext.eq_of_onGrid (le_two_zpow_of_le (k := 53) (by norm_num) hsmall) hgrid
    -- a whole number has no distance to its whole part
    have hne : a ≠ ⌊a⌋ := by
      intro heq
      have hzero := sub_roundsTo hx hwhole
      rw [← heq, sub_self] at hzero
      apply hfar
      refine ((hzero.eq_of_onGrid (le_two_zpow (by norm_num)) OnGrid.zero).lt_iff denotes_half).2 ?_
      norm_num
    have hlt' : ⌊a⌋ < ⌈a⌉ :=
      Int.lt_ceil.2 (lt_of_le_of_ne (Int.floor_le a) (Ne.symm hne))
    exact ⟨⌊a⌋ + 1, hsum, by omega, by omega⟩

theorem exists_int_round (hx : Denotes x r) (hlt : |r| < 2 ^ 52) :
    ∃ n : ℤ, Denotes (round x) n ∧ ⌊r⌋ ≤ n ∧ n ≤ ⌈r⌉ := by
  have habs := abs_denotes hx
  have hsize := (habs.lt_iff denotes_two_pow_52).2 hlt
  obtain ⟨n, hn, hlo, hhi⟩ := near_denotes habs (abs_nonneg r) hlt
  rw [round, if_pos hsize]
  have hneg : x < 0.0 ↔ r < 0 := hx.lt_iff denotes_zero
  have hpos : 0.0 < x ↔ 0 < r := denotes_zero.lt_iff hx
  rcases lt_trichotomy r 0 with hr | rfl | hr
  · rw [abs_of_neg hr] at hlo hhi
    rw [Int.floor_neg] at hlo
    rw [Int.ceil_neg] at hhi
    refine ⟨-n, ?_, by omega, by omega⟩
    simp only [hneg.2 hr, if_true]
    exact_mod_cast neg_denotes hn
  · refine ⟨0, ?_, by simp, by simp⟩
    simp only [hneg.not.2 (lt_irrefl _), hpos.not.2 (lt_irrefl _), if_false]
    exact_mod_cast hx
  · rw [abs_of_pos hr] at hlo hhi
    refine ⟨n, ?_, hlo, hhi⟩
    simp only [hneg.not.2 hr.le.not_gt, hpos.2 hr, if_false, if_true]
    exact hn

theorem round_denotes (hx : Denotes x r) :
    ∃ w : ℚ, Denotes (round x) w ∧ ⌊r⌋ ≤ w ∧ w ≤ ⌈r⌉ := by
  by_cases hsize : x.abs < 4503599627370496.0
  · have hlt := ((abs_denotes hx).lt_iff denotes_two_pow_52).1 hsize
    obtain ⟨n, hn, hlo, hhi⟩ := exists_int_round hx hlt
    exact ⟨n, hn, by exact_mod_cast hlo, by exact_mod_cast hhi⟩
  · rw [round_eq_self hsize]
    exact ⟨r, hx, Int.floor_le r, Int.le_ceil r⟩

theorem round_infinity {t : Sign} (hx : form x = .infinity t) : round x = x := by
  refine round_eq_self ?_
  have hform : form x.abs = .infinity .positive := by
    show (Float.Model.pack (form x).abs).unpack = _
    rw [hx]
    exact unpack_pack_infinity .positive
  intro hlt
  rw [lt_def, hform] at hlt
  revert hlt
  rw [show form 4503599627370496.0 = .finite .positive (2 ^ 52) 0 (by norm_num) from rfl]
  simp [UnpackedFloat.compare]

theorem round_notANumber (hx : form x = .notANumber) : round x = x := by
  refine round_eq_self ?_
  have hform : form x.abs = .notANumber := by
    show (Float.Model.pack (form x).abs).unpack = _
    rw [hx]
    exact unpack_pack_notANumber
  intro hlt
  rw [lt_def, hform] at hlt
  simp [UnpackedFloat.compare] at hlt

end whole

/-! ## Two decimals -/

section hundredths

variable {x b : Float} {r : ℚ} {n : ℤ}

theorem OnGrid.intCast (hn : |n| ≤ 2 ^ 53) : OnGrid n := ⟨n, 0, hn, by norm_num, by simp⟩

theorem abs_lt_of_abs_le (hn : |n| ≤ 2 ^ 53) : |(n : ℚ)| < 2 ^ (1024 : ℤ) := by
  have hcast : |(n : ℚ)| ≤ 2 ^ (53 : ℤ) := by exact_mod_cast hn
  exact hcast.trans_lt (zpow_lt_zpow_right₀ (by norm_num) (by norm_num))

theorem atMost_round (hx : AtMost x n) : AtMost (round x) n := by
  rcases hx with ⟨s, hs, hle⟩ | hinf
  · obtain ⟨w, hw, -, hhi⟩ := round_denotes hs
    have hceil : ⌈s⌉ ≤ n := Int.ceil_le.2 hle
    exact .inl ⟨w, hw, hhi.trans (by exact_mod_cast hceil)⟩
  · rw [round_infinity hinf]
    exact .inr hinf

theorem atLeast_round (hx : AtLeast x n) : AtLeast (round x) n := by
  rcases hx with ⟨s, hs, hle⟩ | hinf
  · obtain ⟨w, hw, hlo, -⟩ := round_denotes hs
    have hfloor : n ≤ ⌊s⌋ := Int.le_floor.2 hle
    exact .inl ⟨w, hw, le_trans (by exact_mod_cast hfloor) hlo⟩
  · rw [round_infinity hinf]
    exact .inr hinf

/-- `b` is a number of the grid with two decimals. -/
def HasTwoDecimals (b : Float) : Prop := ∃ (r : ℚ) (n : ℤ), Denotes b r ∧ r * 100 = n ∧ |n| ≤ 2 ^ 53

theorem hasTwoDecimals_literal {n : ℕ} (hn : n * 100 ≤ 2 ^ 53) :
    HasTwoDecimals (OfScientific.ofScientific (n * 10) true 1) :=
  ⟨n, (n * 100 : ℕ), denotes_literal (by omega), by push_cast; rfl, by rw [Nat.abs_cast]; exact_mod_cast hn⟩

theorem hasTwoDecimals_half : HasTwoDecimals 0.5 := ⟨1 / 2, 50, denotes_half, by norm_num, by norm_num⟩

theorem HasTwoDecimals.neg (hb : HasTwoDecimals b) : HasTwoDecimals (-b) := by
  obtain ⟨r, n, hr, hn, hbound⟩ := hb
  refine ⟨-r, -n, neg_denotes hr, ?_, by rwa [abs_neg]⟩
  rw [neg_mul, hn, Int.cast_neg]

theorem abs_lt_of_hundredths (hn : r * 100 = n) (hbound : |n| ≤ 2 ^ 53) : |r| < 2 ^ (1024 : ℤ) := by
  have hle : |r| ≤ |(n : ℚ)| := by
    rw [← hn, abs_mul]
    exact le_mul_of_one_le_right (abs_nonneg r) (by norm_num)
  exact hle.trans_lt (abs_lt_of_abs_le hbound)

theorem hundredths_le (hb : HasTwoDecimals b) (h : x ≤ b) : hundredths x ≤ b := by
  obtain ⟨r, n, hr, hn, hbound⟩ := hb
  have hgrid := OnGrid.intCast hbound
  have hlt := (abs_lt.1 (abs_lt_of_abs_le hbound)).2
  have hlt' := (abs_lt.1 (abs_lt_of_hundredths hn hbound)).2
  have hproduct : AtMost (x * 100.0) n := by
    rcases (le_iff_atMost hr).1 h with ⟨s, hs, hle⟩ | hinf
    · exact (mul_roundsTo hs denotes_hundred).atMost hgrid hlt (by linarith)
    · exact .inr (infinity_mul hinf denotes_hundred (by norm_num))
  have hquotient : AtMost (round (x * 100.0) / 100.0) r := by
    rcases atMost_round hproduct with ⟨w, hw, hle⟩ | hinf
    · refine (div_roundsTo hw denotes_hundred (by norm_num)).atMost hr.onGrid hlt' ?_
      rw [div_le_iff₀ (by norm_num), hn]
      exact hle
    · exact .inr (infinity_div hinf denotes_hundred (by norm_num))
  exact (le_iff_atMost hr).2 hquotient

theorem le_hundredths (hb : HasTwoDecimals b) (h : b ≤ x) : b ≤ hundredths x := by
  obtain ⟨r, n, hr, hn, hbound⟩ := hb
  have hgrid := OnGrid.intCast hbound
  have hlt := (abs_lt.1 (abs_lt_of_abs_le hbound)).1
  have hlt' := (abs_lt.1 (abs_lt_of_hundredths hn hbound)).1
  have hproduct : AtLeast (x * 100.0) n := by
    rcases (ge_iff_atLeast hr).1 h with ⟨s, hs, hle⟩ | hinf
    · exact (mul_roundsTo hs denotes_hundred).atLeast hgrid hlt (by linarith)
    · exact .inr (infinity_mul hinf denotes_hundred (by norm_num))
  have hquotient : AtLeast (round (x * 100.0) / 100.0) r := by
    rcases atLeast_round hproduct with ⟨w, hw, hle⟩ | hinf
    · refine (div_roundsTo hw denotes_hundred (by norm_num)).atLeast hr.onGrid hlt' ?_
      rw [le_div_iff₀ (by norm_num), hn]
      exact hle
    · exact .inr (infinity_div hinf denotes_hundred (by norm_num))
  exact (ge_iff_atLeast hr).2 hquotient

theorem hundredths_notANumber (hx : form x = .notANumber) : form (hundredths x) = .notANumber := by
  have hproduct : form (x * 100.0) = .notANumber := notANumber_mul hx
  show form (round (x * 100.0) / 100.0) = .notANumber
  rw [round_notANumber hproduct]
  exact notANumber_div hproduct

end hundredths

end CodeQuality.Binary64
