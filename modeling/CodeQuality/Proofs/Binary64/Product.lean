import CodeQuality.Proofs.Binary64.Arithmetic

/-!
# Products, and operands that are no numbers

`mul_roundsTo` is the product of numbers. An operand that is infinite stays so when it is multiplied
with or divided by a positive number, and one that is undefined stays undefined.

`AtMost` and `AtLeast` compare a value with a rational number as `≤` compares it with a value that
denotes the number; a rounded result does not cross a number of the grid (`RoundsTo.atMost`,
`RoundsTo.atLeast`).
-/

namespace CodeQuality.Binary64

open Float.Model Float.Model.UnpackedFloat

/-! ## Products -/

theorem signed_mul_signed (s t : Sign) (x y : ℚ) : signed (s * t) (x * y) = signed s x * signed t y := by
  cases s <;> cases t
  · exact (neg_mul_neg x y).symm
  · exact neg_mul_eq_neg_mul x y
  · exact neg_mul_eq_mul_neg x y
  · rfl

theorem mul_rounds {u v : UnpackedFloat} (hu : Canonical u) (hv : Canonical v) :
    Rounds (value u * value v) (UnpackedFloat.mul Format.binary64 u v) := by
  have hzero (s : Sign) : Rounds 0 (.zero s) := ⟨trivial, Nearest.of_onGrid OnGrid.zero⟩
  rcases hu.zero_or_finite with ⟨s, rfl⟩ | ⟨s, m, p, hm, rfl⟩
  · rw [value_zero, zero_mul]
    rcases hv.zero_or_finite with ⟨t, rfl⟩ | ⟨t, n, q, hn, rfl⟩
    · exact hzero (s * t)
    · exact hzero (s * t)
  · rcases hv.zero_or_finite with ⟨t, rfl⟩ | ⟨t, n, q, hn, rfl⟩
    · rw [value_zero, mul_zero]
      exact hzero (s * t)
    · have htruncates : Truncates (.ofMantissaAndAccuracy (m * n) .exact)
          ((m : ℚ) * 2 ^ p * (n * 2 ^ q) / 2 ^ (p + q)) := by
        have hexact := Truncates.of_exact (m * n)
        convert hexact using 1
        rw [div_eq_iff (two_zpow_pos _).ne', two_zpow_add]
        push_cast
        ring
      -- a full mantissa makes the product long enough, and two short ones have the least exponents
      have hdigits : p + q ≤ lastPlace (m * n) (p + q) := by
        rcases hu.2.2 with hm' | hp
        · exact lastPlace_of_le (hm'.trans (Nat.le_mul_of_pos_right m hn))
        · rcases hv.2.2 with hn' | hq
          · exact lastPlace_of_le (hn'.trans (Nat.le_mul_of_pos_left n hm))
          · rw [lastPlace_eq]
            omega
      have hrounds := roundWithAccuracy_rounds htruncates hdigits (s * t)
      rwa [signed_mul_signed] at hrounds

section operations

variable {x y : Float} {r s : ℚ}

theorem mul_roundsTo (hx : Denotes x r) (hy : Denotes y s) : RoundsTo (x * y) (r * s) := by
  rw [← hx.value_eq, ← hy.value_eq]
  exact pack_roundsTo (mul_rounds hx.canonical hy.canonical)

/-! ## Infinite and undefined operands -/

theorem form_mul (x y : Float) :
    form (x * y) =
      (Float.Model.pack (UnpackedFloat.mul Format.binary64 (form x) (form y))).unpack := rfl

theorem form_div (x y : Float) :
    form (x / y) =
      (Float.Model.pack (UnpackedFloat.div Format.binary64 (form x) (form y))).unpack := rfl

theorem Denotes.form_of_pos (hx : Denotes x r) (hr : 0 < r) :
    ∃ m q hm, form x = .finite .positive m q hm := by
  obtain ⟨hcanonical, hvalue⟩ := hx
  rcases hcanonical.zero_or_finite with ⟨s, h⟩ | ⟨s, m, q, hm, h⟩
  · rw [h, value_zero] at hvalue
    exact absurd hvalue hr.ne
  · cases s with
    | positive => exact ⟨m, q, hm, h⟩
    | negative =>
      rw [h] at hvalue
      exact absurd (hvalue ▸ value_lt_zero hm) (not_lt.2 hr.le)

theorem infinity_mul {t : Sign} (hx : form x = .infinity t) (hy : Denotes y s) (hs : 0 < s) :
    form (x * y) = .infinity t := by
  obtain ⟨m, q, hm, h⟩ := hy.form_of_pos hs
  rw [form_mul, hx, h]
  cases t
  · exact unpack_pack_infinity .negative
  · exact unpack_pack_infinity .positive

theorem infinity_div {t : Sign} (hx : form x = .infinity t) (hy : Denotes y s) (hs : 0 < s) :
    form (x / y) = .infinity t := by
  obtain ⟨m, q, hm, h⟩ := hy.form_of_pos hs
  rw [form_div, hx, h]
  cases t
  · exact unpack_pack_infinity .negative
  · exact unpack_pack_infinity .positive

theorem notANumber_mul (hx : form x = .notANumber) : form (x * y) = .notANumber := by
  rw [form_mul, hx]
  exact unpack_pack_notANumber

theorem notANumber_div (hx : form x = .notANumber) : form (x / y) = .notANumber := by
  rw [form_div, hx]
  exact unpack_pack_notANumber

end operations

/-! ## Bounds -/

section bounds

variable {x b : Float} {r z : ℚ}

/-- `x` is a number that is at most `r`, or infinite below zero. -/
def AtMost (x : Float) (r : ℚ) : Prop :=
  (∃ s, Denotes x s ∧ s ≤ r) ∨ form x = .infinity .negative

/-- `x` is a number that is at least `r`, or infinite above zero. -/
def AtLeast (x : Float) (r : ℚ) : Prop :=
  (∃ s, Denotes x s ∧ r ≤ s) ∨ form x = .infinity .positive

theorem le_iff_atMost (hb : Denotes b r) : x ≤ b ↔ AtMost x r := by
  constructor
  · intro h
    rcases form_cases x with ⟨s, hs⟩ | ⟨t, ht⟩ | hn
    · exact .inl ⟨s, hs, (hs.le_iff hb).1 h⟩
    · cases t with
      | negative => exact .inr ht
      | positive => exact absurd h (not_infinity_le ht hb)
    · rw [le_def, hn] at h
      simp [UnpackedFloat.compare] at h
  · rintro (⟨s, hs, hle⟩ | hx)
    · exact (hs.le_iff hb).2 hle
    · rw [le_def, hx]
      rcases hb.canonical.zero_or_finite with ⟨t, h⟩ | ⟨t, m, q, hm, h⟩ <;> rw [h]
      · rfl
      · cases t <;> rfl

theorem ge_iff_atLeast (hb : Denotes b r) : b ≤ x ↔ AtLeast x r := by
  constructor
  · exact denotes_or_infinity_of_le hb
  · rintro (⟨s, hs, hle⟩ | hx)
    · exact (hb.le_iff hs).2 hle
    · rw [le_def, hx]
      rcases hb.canonical.zero_or_finite with ⟨t, h⟩ | ⟨t, m, q, hm, h⟩ <;> rw [h]
      · rfl
      · cases t <;> rfl

theorem RoundsTo.atMost (h : RoundsTo x r) (hz : OnGrid z) (hlt : z < 2 ^ (1024 : ℤ)) (hrz : r ≤ z) :
    AtMost x z := by
  cases h with
  | number y hy hx => exact .inl ⟨y, hx, hy.le_of_le hz hrz⟩
  | above y hy hlarge => exact absurd (hlarge.trans (hy.le_of_le hz hrz)) (not_le.2 hlt)
  | below _ _ _ hx => exact .inr hx

theorem RoundsTo.atLeast (h : RoundsTo x r) (hz : OnGrid z) (hlt : -2 ^ (1024 : ℤ) < z) (hzr : z ≤ r) :
    AtLeast x z := by
  cases h with
  | number y hy hx => exact .inl ⟨y, hx, hy.le_of_ge hz hzr⟩
  | above _ _ _ hx => exact .inr hx
  | below y hy hlarge => exact absurd ((hy.le_of_ge hz hzr).trans hlarge) (not_le.2 hlt)

theorem le_or_ge (hb : Denotes b r) (x : Float) : x ≤ b ∨ b ≤ x ∨ form x = .notANumber := by
  rw [le_iff_atMost hb, ge_iff_atLeast hb]
  rcases form_cases x with ⟨s, hs⟩ | ⟨t, ht⟩ | hn
  · rcases le_total s r with hle | hle
    · exact .inl (.inl ⟨s, hs, hle⟩)
    · exact .inr (.inl (.inl ⟨s, hs, hle⟩))
  · cases t with
    | negative => exact .inl (.inr ht)
    | positive => exact .inr (.inl (.inr ht))
  · exact .inr (.inr hn)

theorem lt_iff_of_denotes (hb : Denotes b r) : b < x ↔ b ≤ x ∧ ¬ x ≤ b := by
  rcases form_cases x with ⟨s, hs⟩ | ⟨t, ht⟩ | hn
  · rw [hb.lt_iff hs, hb.le_iff hs, hs.le_iff hb, lt_iff_le_not_ge]
  · rw [lt_def, le_def, le_def, ht]
    rcases hb.canonical.zero_or_finite with ⟨u, h⟩ | ⟨u, m, q, hm, h⟩ <;> rw [h] <;> cases t <;>
      cases u <;> simp [UnpackedFloat.compare]
  · rw [lt_def, le_def, le_def, hn]
    cases form b <;> simp [UnpackedFloat.compare]

theorem gt_iff_of_denotes (hb : Denotes b r) : x < b ↔ x ≤ b ∧ ¬ b ≤ x := by
  rcases form_cases x with ⟨s, hs⟩ | ⟨t, ht⟩ | hn
  · rw [hs.lt_iff hb, hb.le_iff hs, hs.le_iff hb, lt_iff_le_not_ge]
  · rw [lt_def, le_def, le_def, ht]
    rcases hb.canonical.zero_or_finite with ⟨u, h⟩ | ⟨u, m, q, hm, h⟩ <;> rw [h] <;> cases t <;>
      cases u <;> simp [UnpackedFloat.compare]
  · rw [lt_def, le_def, le_def, hn]
    cases form b <;> simp [UnpackedFloat.compare]

end bounds

end CodeQuality.Binary64
