import CodeQuality.Proofs.Binary64.Packing

/-!
# Floating-point arithmetic

Sum, difference and quotient of numbers, as floating point computes them: the exact result is rounded
to a nearest number of the grid, and to an infinite value if that number is too large (`RoundsTo`).

* `add_roundsTo`, `sub_roundsTo`, `div_roundsTo`: one operation on numbers;
* `RoundsTo.denotes`: a result that is not large is a number;
* `Nonneg.add`, `denotes_of_add`: sums of values that are not below zero stay there, and such a sum
  is a number only if both values are.
-/

namespace CodeQuality.Binary64

open Float.Model Float.Model.UnpackedFloat

/-! ## Operations on canonical forms -/

theorem cast_apply (s : Sign) (m : ℕ) : ((s.apply m : ℤ) : ℚ) = signed s m := by
  cases s <;> simp [Sign.apply, signed]

theorem signed_mul (s : Sign) (x y : ℚ) : signed s (x * y) = signed s x * y := by
  cases s <;> simp [signed]

theorem signed_neg (s : Sign) (x : ℚ) : signed (-s) x = -signed s x := by
  cases s
  · exact (neg_neg x).symm
  · rfl

theorem signed_div (s t : Sign) (x y : ℚ) : signed (s / t) (x / y) = signed s x / signed t y := by
  cases s <;> cases t
  · exact (neg_div_neg_eq x y).symm
  · exact (neg_div y x).symm
  · exact (div_neg x).symm
  · rfl

theorem value_aligned {m : ℕ} {q t : ℤ} (ht : t ≤ q) :
    ((decreaseExponent m q t).1 : ℚ) * 2 ^ t = m * 2 ^ q := by
  have h := value_decreaseExponent m q t
  have hexponent : (decreaseExponent m q t).2 = t := by
    simp only [decreaseExponent]
    omega
  rwa [hexponent] at h

theorem add_rounds {u v : UnpackedFloat} (hu : Canonical u) (hv : Canonical v) :
    Rounds (value u + value v) (UnpackedFloat.add Format.binary64 u v) := by
  rcases hu.zero_or_finite with ⟨s, rfl⟩ | ⟨s, m, p, hm, rfl⟩
  · rcases hv.zero_or_finite with ⟨t, rfl⟩ | ⟨t, n, q, hn, rfl⟩
    · rw [value_zero, value_zero, add_zero]
      show Rounds 0 (if s == t then .zero s else .zero .positive)
      split <;> exact ⟨trivial, Nearest.of_onGrid OnGrid.zero⟩
    · rw [value_zero, zero_add]
      exact hv.rounds
  · rcases hv.zero_or_finite with ⟨t, rfl⟩ | ⟨t, n, q, hn, rfl⟩
    · rw [value_zero, add_zero]
      exact hu.rounds
    · -- both mantissas are brought to the smaller exponent, where they are added exactly
      simp only [UnpackedFloat.add, value]
      convert normalize_rounds _ (min p q) .positive using 1
      rw [Int.cast_add, cast_apply, cast_apply, add_mul, ← signed_mul, ← signed_mul,
        value_aligned (min_le_left p q), value_aligned (min_le_right p q)]

theorem Canonical.neg {u : UnpackedFloat} (hu : Canonical u) :
    Canonical u.neg ∧ value u.neg = -value u := by
  rcases hu.zero_or_finite with ⟨s, rfl⟩ | ⟨s, m, q, hm, rfl⟩
  · exact ⟨trivial, neg_zero.symm⟩
  · exact ⟨hu, signed_neg s _⟩

theorem sub_eq_add_neg_form {u v : UnpackedFloat} (hu : Canonical u) (hv : Canonical v) :
    UnpackedFloat.sub Format.binary64 u v = UnpackedFloat.add Format.binary64 u v.neg := by
  rcases hu.zero_or_finite with ⟨s, rfl⟩ | ⟨s, m, p, hm, rfl⟩
  · rcases hv.zero_or_finite with ⟨t, rfl⟩ | ⟨t, n, q, hn, rfl⟩ <;> rfl
  · rcases hv.zero_or_finite with ⟨t, rfl⟩ | ⟨t, n, q, hn, rfl⟩
    · rfl
    · have happly (k : ℕ) : -t.apply k = (-t).apply k := by
        cases t
        · exact neg_neg _
        · rfl
      simp only [UnpackedFloat.sub, UnpackedFloat.add, UnpackedFloat.neg, sub_eq_add_neg, happly]

theorem sub_rounds {u v : UnpackedFloat} (hu : Canonical u) (hv : Canonical v) :
    Rounds (value u - value v) (UnpackedFloat.sub Format.binary64 u v) := by
  rw [sub_eq_add_neg_form hu hv, sub_eq_add_neg, ← hv.neg.2]
  exact add_rounds hu hv.neg.1

theorem div_rounds {u v : UnpackedFloat} (hu : Canonical u) (hv : Canonical v)
    (hne : value v ≠ 0) : Rounds (value u / value v) (UnpackedFloat.div Format.binary64 u v) := by
  rcases hv.zero_or_finite with ⟨t, rfl⟩ | ⟨t, n, q, hn, rfl⟩
  · exact absurd rfl hne
  · rcases hu.zero_or_finite with ⟨s, rfl⟩ | ⟨s, m, p, hm, rfl⟩
    · rw [value_zero, zero_div]
      exact ⟨trivial, Nearest.of_onGrid OnGrid.zero⟩
    · simp only [UnpackedFloat.div, value]
      rw [← signed_div]
      exact divCore_rounds hm hn p q (s / t)

theorem add_infinity {u : UnpackedFloat} {s : Sign} (hu : Canonical u) :
    UnpackedFloat.add Format.binary64 u (.infinity s) = .infinity s := by
  rcases hu.zero_or_finite with ⟨t, rfl⟩ | ⟨t, m, q, hm, rfl⟩ <;> rfl

theorem infinity_add {u : UnpackedFloat} {s : Sign} (hu : Canonical u) :
    UnpackedFloat.add Format.binary64 (.infinity s) u = .infinity s := by
  rcases hu.zero_or_finite with ⟨t, rfl⟩ | ⟨t, m, q, hm, rfl⟩ <;> rfl

theorem div_infinity_form {u : UnpackedFloat} {s : Sign} (hu : Canonical u) :
    ∃ t, UnpackedFloat.div Format.binary64 u (.infinity s) = .zero t := by
  rcases hu.zero_or_finite with ⟨t, rfl⟩ | ⟨t, m, q, hm, rfl⟩ <;> exact ⟨_, rfl⟩

/-! ## Operations on floating-point values -/

/-- `x` is the rounded result `r`: a nearest number, or infinite if that is too large. -/
inductive RoundsTo (x : Float) (r : ℚ) : Prop where
  | number (y : ℚ) (nearest : Nearest r y) (denotes : Denotes x y)
  | above (y : ℚ) (nearest : Nearest r y) (large : 2 ^ (1024 : ℤ) ≤ y)
      (infinite : form x = .infinity .positive)
  | below (y : ℚ) (nearest : Nearest r y) (large : y ≤ -2 ^ (1024 : ℤ))
      (infinite : form x = .infinity .negative)

theorem pack_roundsTo {u : UnpackedFloat} {r : ℚ} (h : Rounds r u) :
    RoundsTo (.ofModel (.pack u)) r := by
  obtain ⟨hu, hnearest⟩ := h
  rcases hu.zero_or_finite with ⟨s, rfl⟩ | ⟨s, m, q, hm, rfl⟩
  · exact .number _ hnearest (.of_form (unpack_pack_zero s) hu)
  · have hform : form (.ofModel (.pack (.finite s m q hm))) = _ := unpack_pack_finite hu
    by_cases hq : q ≤ 971
    · rw [if_pos hq] at hform
      exact .number _ hnearest (.of_form hform hu)
    · rw [if_neg hq] at hform
      have hlarge := not_lt.1 (mt hu.abs_value_lt_iff.1 hq)
      cases s with
      | positive =>
        rw [abs_of_pos (value_pos hm)] at hlarge
        exact .above _ hnearest hlarge hform
      | negative =>
        rw [abs_of_neg (value_lt_zero hm)] at hlarge
        exact .below _ hnearest (by linarith) hform

section operations

variable {x y : Float} {r s : ℚ}

theorem add_roundsTo (hx : Denotes x r) (hy : Denotes y s) : RoundsTo (x + y) (r + s) := by
  rw [← hx.value_eq, ← hy.value_eq]
  exact pack_roundsTo (add_rounds hx.canonical hy.canonical)

theorem sub_roundsTo (hx : Denotes x r) (hy : Denotes y s) : RoundsTo (x - y) (r - s) := by
  rw [← hx.value_eq, ← hy.value_eq]
  exact pack_roundsTo (sub_rounds hx.canonical hy.canonical)

theorem div_roundsTo (hx : Denotes x r) (hy : Denotes y s) (hs : s ≠ 0) :
    RoundsTo (x / y) (r / s) := by
  rw [← hx.value_eq, ← hy.value_eq]
  exact pack_roundsTo (div_rounds hx.canonical hy.canonical (hy.value_eq ▸ hs))

theorem neg_denotes (hx : Denotes x r) : Denotes (-x) (-r) := by
  obtain ⟨hcanonical, hvalue⟩ := hx.canonical.neg
  rw [← hx.value_eq, ← hvalue]
  refine .of_form ?_ hcanonical
  show (Float.Model.pack (form x).neg).unpack = (form x).neg
  rcases hx.canonical.zero_or_finite with ⟨s, h⟩ | ⟨s, m, q, hm, h⟩
  · rw [h]
    exact unpack_pack_zero _
  · -- a value that is unpacked fits, so that packing its opposite does not make it infinite
    have hfit := canonical_unpack h
    have hneg : (form x).neg = .finite (-s) m q hm := by rw [h, UnpackedFloat.neg]
    have hcanonical' : Canonical (.finite (-s) m q hm) := hfit.1
    rw [hneg, unpack_pack_finite hcanonical', if_pos hfit.2]

theorem div_infinity {t : Sign} (hx : Denotes x r) (hy : form y = .infinity t) :
    Denotes (x / y) 0 := by
  obtain ⟨s, hs⟩ := div_infinity_form (s := t) hx.canonical
  have hform : form (x / y) = .zero s := by
    show (Float.Model.pack (UnpackedFloat.div Format.binary64 (form x) (form y))).unpack = _
    rw [hy, hs, unpack_pack_zero]
  exact .of_form hform trivial

theorem infinity_div_infinity {s t : Sign} (hx : form x = .infinity s) (hy : form y = .infinity t) :
    form (x / y) = .notANumber := by
  have hdiv : form (x / y) =
      (Float.Model.pack (UnpackedFloat.div Format.binary64 (form x) (form y))).unpack := rfl
  rw [hdiv, hx, hy]
  exact unpack_pack_notANumber

/-- A result that is not large is a number. -/
theorem RoundsTo.denotes (h : RoundsTo x r) (hr : |r| ≤ 2 ^ (1023 : ℤ)) :
    ∃ y, Denotes x y ∧ Nearest r y := by
  have hbound {y : ℚ} (hy : Nearest r y) : |y| < 2 ^ (1024 : ℤ) :=
    (hy.abs_le_of_abs_le (OnGrid.two_zpow (by norm_num)) hr).trans_lt
      (zpow_lt_zpow_right₀ (by norm_num) (by norm_num))
  cases h with
  | number y hy hx => exact ⟨y, hx, hy⟩
  | above y hy hlarge => exact absurd ((le_abs_self y).trans_lt (hbound hy)) (not_lt.2 hlarge)
  | below y hy hlarge =>
    have := (neg_le_abs y).trans_lt (hbound hy)
    linarith

theorem RoundsTo.eq_of_onGrid (h : RoundsTo x r) (hr : |r| ≤ 2 ^ (1023 : ℤ)) (hgrid : OnGrid r) :
    Denotes x r := by
  obtain ⟨y, hx, hy⟩ := h.denotes hr
  exact hy.eq_of_onGrid hgrid ▸ hx

/-! ## Values that are not below zero -/

/-- `x` is a number that is not negative, or infinite. -/
def Nonneg (x : Float) : Prop := (∃ r, Denotes x r ∧ 0 ≤ r) ∨ form x = .infinity .positive

theorem Denotes.ne_infinity {t : Sign} (hx : Denotes x r) : form x ≠ .infinity t := by
  intro h
  exact (h ▸ hx.canonical : Canonical (.infinity t))

theorem Denotes.ne_notANumber (hx : Denotes x r) : form x ≠ .notANumber := by
  intro h
  exact (h ▸ hx.canonical : Canonical .notANumber)

theorem RoundsTo.nearest (h : RoundsTo x r) (hx : Denotes x s) : Nearest r s := by
  cases h with
  | number y hy hx' => exact hx'.unique hx ▸ hy
  | above y hy hlarge hinf => exact absurd hinf hx.ne_infinity
  | below y hy hlarge hinf => exact absurd hinf hx.ne_infinity

theorem form_add_of_infinity (hx : Nonneg x) (hy : Nonneg y)
    (h : form x = .infinity .positive ∨ form y = .infinity .positive) :
    form (x + y) = .infinity .positive := by
  have hadd : form (x + y) =
      (Float.Model.pack (UnpackedFloat.add Format.binary64 (form x) (form y))).unpack := rfl
  rw [hadd, ← unpack_pack_infinity .positive]
  congr 2
  rcases hx with ⟨r, hr, -⟩ | hx
  · rw [h.resolve_left hr.ne_infinity, add_infinity hr.canonical]
  · rcases hy with ⟨s, hs, -⟩ | hy
    · rw [hx, infinity_add hs.canonical]
    · rw [hx, hy]
      rfl

theorem Nonneg.add (hx : Nonneg x) (hy : Nonneg y) : Nonneg (x + y) := by
  rcases hx with ⟨r, hr, hr0⟩ | hinf
  · rcases hy with ⟨s, hs, hs0⟩ | hinf
    · cases add_roundsTo hr hs with
      | number z hz h => exact .inl ⟨z, h, hz.le_of_ge OnGrid.zero (by linarith)⟩
      | above _ _ _ h => exact .inr h
      | below z hz hlarge =>
        -- rounding does not go below zero
        have hz0 := hz.le_of_ge OnGrid.zero (by linarith)
        exact absurd (hz0.trans hlarge) (not_le.2 (neg_lt_zero.2 (two_zpow_pos 1024)))
    · exact .inr (form_add_of_infinity (.inl ⟨r, hr, hr0⟩) (.inr hinf) (.inr hinf))
  · exact .inr (form_add_of_infinity (.inr hinf) hy (.inl hinf))

/-- A sum that is a number has numbers as its parts. -/
theorem denotes_of_add {t : ℚ} (hx : Nonneg x) (hy : Nonneg y) (h : Denotes (x + y) t) :
    ∃ r s, Denotes x r ∧ Denotes y s ∧ 0 ≤ r ∧ 0 ≤ s ∧ Nearest (r + s) t := by
  have hinf := mt (form_add_of_infinity hx hy) h.ne_infinity
  obtain ⟨r, hr, hr0⟩ := hx.resolve_right fun h => hinf (.inl h)
  obtain ⟨s, hs, hs0⟩ := hy.resolve_right fun h => hinf (.inr h)
  exact ⟨r, s, hr, hs, hr0, hs0, (add_roundsTo hr hs).nearest h⟩

end operations

/-! ## Literals and distances -/

theorem denotes_zero : Denotes 0.0 0 := .of_form rfl trivial

theorem denotes_one : Denotes 1.0 1 := by
  have hform : form 1.0 = .finite .positive (2 ^ 52) (-52) (by norm_num) := rfl
  have hcanonical : Canonical (.finite .positive (2 ^ 52) (-52) (by norm_num)) :=
    ⟨by norm_num, by norm_num, .inl (le_refl _)⟩
  refine ⟨hform ▸ hcanonical, ?_⟩
  rw [hform, value, signed]
  norm_num

theorem nonneg_iff {x : Float} : (0.0 : Float) ≤ x ↔ Nonneg x := by
  constructor
  · exact denotes_or_infinity_of_le denotes_zero
  · rintro (⟨r, hr, hr0⟩ | hx)
    · exact (denotes_zero.le_iff hr).2 hr0
    · rw [le_def, hx]
      rfl

theorem denotes_magnitude {x : Float} {r : ℚ} (h : Denotes x r) : Denotes (Scalar.magnitude x) |r| := by
  have hlt : x < (0.0 : Float) ↔ r < 0 := h.lt_iff denotes_zero
  unfold Scalar.magnitude
  split
  next hx =>
    rw [abs_of_neg (hlt.1 hx)]
    exact neg_denotes h
  next hx =>
    rw [abs_of_nonneg (not_lt.1 (mt hlt.2 hx))]
    exact h

theorem le_two_zpow {r : ℚ} (h : |r| ≤ 4) : |r| ≤ 2 ^ (1023 : ℤ) :=
  calc |r| ≤ 2 ^ (2 : ℤ) := h.trans (by norm_num)
    _ ≤ 2 ^ (1023 : ℤ) := zpow_le_zpow_right₀ (by norm_num) (by norm_num)

end CodeQuality.Binary64
