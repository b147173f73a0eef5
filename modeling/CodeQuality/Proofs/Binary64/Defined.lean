import CodeQuality.Proofs.Binary64.Range

/-!
# Defined values

A value is `Defined` unless it is the one that is neither a number nor infinite. A number keeps what
it is combined with defined, however large that is, and a band makes a number of what is defined
(`denotes_clamp`). What is not defined passes through everything (`form_total_of_notANumber`).
-/

namespace CodeQuality.Binary64

open Float.Model Float.Model.UnpackedFloat Scalar

/-- `x` is a number or infinite. -/
def Defined (x : Float) : Prop := form x ≠ .notANumber

section defined

variable {x y : Float} {r s : ℚ}

theorem Denotes.defined (hx : Denotes x r) : Defined x := hx.ne_notANumber

theorem Within.defined {p : ℕ} (hx : Within x p) : Defined x := by
  obtain ⟨r, hr, -⟩ := hx
  exact hr.defined

theorem Defined.cases (hx : Defined x) : (∃ r, Denotes x r) ∨ ∃ t, form x = .infinity t := by
  rcases form_cases x with h | h | h
  · exact .inl h
  · exact .inr h
  · exact absurd h hx

theorem defined_of_infinity {t : Sign} (hx : form x = .infinity t) : Defined x := by
  rw [Defined, hx]
  exact nofun

theorem RoundsTo.defined (h : RoundsTo x r) : Defined x := by
  cases h with
  | number y hy hx => exact hx.defined
  | above y hy hlarge hx => exact defined_of_infinity hx
  | below y hy hlarge hx => exact defined_of_infinity hx

theorem Defined.add (hx : Defined x) (hy : Denotes y s) : Defined (x + y) := by
  rcases hx.cases with ⟨r, hr⟩ | ⟨t, ht⟩
  · exact (add_roundsTo hr hy).defined
  · have hform : form (x + y) =
        (Float.Model.pack (UnpackedFloat.add Format.binary64 (form x) (form y))).unpack := rfl
    rw [ht, infinity_add hy.canonical, unpack_pack_infinity] at hform
    exact defined_of_infinity hform

theorem Denotes.add_defined (hx : Denotes x r) (hy : Defined y) : Defined (x + y) := by
  rcases hy.cases with ⟨s, hs⟩ | ⟨t, ht⟩
  · exact (add_roundsTo hx hs).defined
  · have hform : form (x + y) =
        (Float.Model.pack (UnpackedFloat.add Format.binary64 (form x) (form y))).unpack := rfl
    rw [ht, add_infinity hx.canonical, unpack_pack_infinity] at hform
    exact defined_of_infinity hform

theorem Denotes.sub_defined (hx : Denotes x r) (hy : Defined y) : Defined (x - y) := by
  rcases hy.cases with ⟨s, hs⟩ | ⟨t, ht⟩
  · exact (sub_roundsTo hx hs).defined
  · have hsub : UnpackedFloat.sub Format.binary64 (form x) (.infinity t) = .infinity (-t) := by
      rcases hx.canonical.zero_or_finite with ⟨u, h⟩ | ⟨u, m, q, hm, h⟩ <;> rw [h] <;> rfl
    have hform : form (x - y) =
        (Float.Model.pack (UnpackedFloat.sub Format.binary64 (form x) (form y))).unpack := rfl
    rw [ht, hsub, unpack_pack_infinity] at hform
    exact defined_of_infinity hform

theorem Defined.mul (hx : Defined x) (hy : Denotes y s) (hs : 0 < s) : Defined (x * y) := by
  rcases hx.cases with ⟨r, hr⟩ | ⟨t, ht⟩
  · exact (mul_roundsTo hr hy).defined
  · exact defined_of_infinity (infinity_mul ht hy hs)

theorem Denotes.mul_defined (hx : Denotes x r) (hr : 0 < r) (hy : Defined y) : Defined (x * y) := by
  rcases hy.cases with ⟨s, hs⟩ | ⟨t, ht⟩
  · exact (mul_roundsTo hx hs).defined
  · obtain ⟨m, q, hm, h⟩ := hx.form_of_pos hr
    have hform := form_mul x y
    rw [ht, h] at hform
    cases t <;> exact defined_of_infinity (hform.trans (unpack_pack_infinity _))

theorem Defined.div (hx : Defined x) (hy : Denotes y s) (hs : 0 < s) : Defined (x / y) := by
  rcases hx.cases with ⟨r, hr⟩ | ⟨t, ht⟩
  · exact (div_roundsTo hr hy hs.ne').defined
  · exact defined_of_infinity (infinity_div ht hy hs)

theorem Defined.foldl_add {xs : List Float} {sum : Float} (hsum : Defined sum)
    (h : ∀ x ∈ xs, ∃ r, Denotes x r) : Defined (xs.foldl (· + ·) sum) := by
  induction xs generalizing sum with
  | nil => exact hsum
  | cons x xs ih =>
    obtain ⟨r, hr⟩ := h x List.mem_cons_self
    exact ih (hsum.add hr) fun y hy => h y (List.mem_cons_of_mem _ hy)

theorem defined_total {xs : List Float} (h : ∀ x ∈ xs, ∃ r, Denotes x r) : Defined (total xs) :=
  within_neg_zero.defined.foldl_add h

/-! ## Bands -/

theorem Denotes.le_of_not_lt (hy : Denotes y s) (hx : Defined x) (h : ¬ x < y) : y ≤ x := by
  rw [gt_iff_of_denotes hy] at h
  rcases le_or_ge hy x with hle | hge | hn
  · by_contra hnot
    exact h ⟨hle, hnot⟩
  · exact hge
  · exact absurd hn hx

theorem Denotes.ge_of_not_lt (hy : Denotes y s) (hx : Defined x) (h : ¬ y < x) : x ≤ y := by
  rw [lt_iff_of_denotes hy] at h
  rcases le_or_ge hy x with hle | hge | hn
  · exact hle
  · by_contra hnot
    exact h ⟨hge, hnot⟩
  · exact absurd hn hx

/-- Only a value that is not defined stays outside of a band. -/
theorem denotes_clamp {lo hi : Float} {a b : ℚ} (hlo : Denotes lo a) (hhi : Denotes hi b)
    (hab : a ≤ b) (hx : Defined x) : ∃ r, Denotes (clamp lo hi x) r ∧ a ≤ r ∧ r ≤ b := by
  unfold clamp
  split
  next => exact ⟨a, hlo, le_refl a, hab⟩
  next hnot =>
    split
    next => exact ⟨b, hhi, hab, le_refl b⟩
    next hnot' =>
      have hge : lo ≤ x := hlo.le_of_not_lt hx hnot
      have hle : x ≤ hi := hhi.ge_of_not_lt hx hnot'
      exact denotes_of_between hlo hhi hge hle

theorem denotes_clampScore (hx : Defined x) : ∃ r, Denotes (clampScore x) r ∧ 0 ≤ r ∧ r ≤ 100 :=
  denotes_clamp denotes_zero denotes_hundred (by norm_num) hx

theorem Denotes.clampScore (hx : Denotes x s) :
    Denotes (Scalar.clampScore x) (max 0 (min s 100)) := by
  unfold Scalar.clampScore clamp
  split
  next h =>
    have hs := (hx.lt_iff denotes_zero).1 h
    rw [min_eq_left (by linarith), max_eq_left hs.le]
    exact denotes_zero
  next h =>
    have hs := not_lt.1 (mt (hx.lt_iff denotes_zero).2 h)
    split
    next h =>
      have hs' := (denotes_hundred.lt_iff hx).1 h
      rw [min_eq_right hs'.le, max_eq_right (by norm_num)]
      exact denotes_hundred
    next h =>
      have hs' := not_lt.1 (mt (denotes_hundred.lt_iff hx).2 h)
      rw [min_eq_left hs', max_eq_right hs]
      exact hx

theorem within_clampScore (hx : Defined x) : Within (clampScore x) 7 := by
  obtain ⟨r, hr, hr0, hr100⟩ := denotes_clampScore hx
  exact hr.within_of_nonneg hr0 (hr100.trans (by norm_num))

theorem clamp_of_notANumber {lo hi : Float} (hx : form x = .notANumber) : clamp lo hi x = x := by
  have hlt : ¬ x < lo := by
    rw [lt_def, hx]
    cases form lo <;> simp [UnpackedFloat.compare]
  have hgt : ¬ hi < x := by
    rw [lt_def, hx]
    cases form hi <;> simp [UnpackedFloat.compare]
  rw [clamp, if_neg hlt, if_neg hgt]

theorem nonneg_larger_zero (hx : Defined x) : Nonneg (larger x 0.0) := by
  rw [larger]
  split
  next => exact .inl ⟨0, denotes_zero, le_refl 0⟩
  next hnot =>
    split
    next => exact nonneg_iff.1 (denotes_zero.le_of_not_lt hx hnot)
    next => exact .inl ⟨0, denotes_zero, le_refl 0⟩

theorem Nonneg.mul (hx : Nonneg x) (hy : Denotes y s) (hs : 0 < s) : Nonneg (x * y) := by
  rcases hx with ⟨r, hr, hr0⟩ | hinf
  · exact (mul_roundsTo hr hy).atLeast OnGrid.zero (by norm_num) (mul_nonneg hr0 hs.le)
  · exact .inr (infinity_mul hinf hy hs)

theorem Nonneg.div (hx : Nonneg x) (hy : Denotes y s) (hs : 0 < s) : Nonneg (x / y) := by
  rcases hx with ⟨r, hr, hr0⟩ | hinf
  · exact (div_roundsTo hr hy hs.ne').atLeast OnGrid.zero (by norm_num) (div_nonneg hr0 hs.le)
  · exact .inr (infinity_div hinf hy hs)

theorem Nonneg.denotes {p : ℕ} (hx : Nonneg x) (h : Within x p) :
    ∃ r, Denotes x r ∧ 0 ≤ r ∧ r ≤ 2 ^ p := by
  obtain ⟨r, hr, hle⟩ := h
  rcases hx with ⟨r', hr', hr0⟩ | hinf
  · rw [hr'.unique hr] at hr0
    exact ⟨r, hr, hr0, (le_abs_self r).trans hle⟩
  · exact absurd hinf hr.ne_infinity

theorem nonneg_mul_self (hx : Denotes x r) : Nonneg (x * x) :=
  (mul_roundsTo hx hx).atLeast OnGrid.zero (by norm_num) (mul_self_nonneg r)

theorem Nonneg.foldl_add {xs : List Float} {sum : Float} (hsum : Nonneg sum)
    (h : ∀ x ∈ xs, Nonneg x) : Nonneg (xs.foldl (· + ·) sum) := by
  induction xs generalizing sum with
  | nil => exact hsum
  | cons x xs ih =>
    exact ih (hsum.add (h x List.mem_cons_self)) fun y hy => h y (List.mem_cons_of_mem _ hy)

theorem nonneg_total {xs : List Float} (h : ∀ x ∈ xs, Nonneg x) : Nonneg (total xs) :=
  Nonneg.foldl_add (.inl ⟨-0, neg_denotes denotes_zero, by norm_num⟩) h

theorem Nonneg.defined (hx : Nonneg x) : Defined x := by
  rcases hx with ⟨r, hr, -⟩ | hinf
  · exact hr.defined
  · exact defined_of_infinity hinf

theorem Nonneg.smaller (hx : Nonneg x) (hy : Denotes y s) (hs : 0 ≤ s) :
    ∃ r, Denotes (smaller x y) r ∧ 0 ≤ r ∧ r ≤ s := by
  rw [Scalar.smaller]
  split
  next => exact ⟨s, hy, hs, le_refl s⟩
  next hnot =>
    split
    next =>
      exact denotes_of_between denotes_zero hy (nonneg_iff.2 hx) (hy.ge_of_not_lt hx.defined hnot)
    next => exact ⟨s, hy, hs, le_refl s⟩

end defined

/-! ## Undefined values -/

section undefined

variable {x y : Float}

theorem notANumber_add (hx : form x = .notANumber) : form (x + y) = .notANumber := by
  have hform : form (x + y) =
      (Float.Model.pack (UnpackedFloat.add Format.binary64 (form x) (form y))).unpack := rfl
  rw [hform, hx]
  cases form y <;> exact unpack_pack_notANumber

theorem add_notANumber (hy : form y = .notANumber) : form (x + y) = .notANumber := by
  have hform : form (x + y) =
      (Float.Model.pack (UnpackedFloat.add Format.binary64 (form x) (form y))).unpack := rfl
  rw [hform, hy]
  cases form x <;> exact unpack_pack_notANumber

theorem notANumber_sub (hx : form x = .notANumber) : form (x - y) = .notANumber := by
  have hform : form (x - y) =
      (Float.Model.pack (UnpackedFloat.sub Format.binary64 (form x) (form y))).unpack := rfl
  rw [hform, hx]
  cases form y <;> exact unpack_pack_notANumber

theorem form_foldl_of_notANumber {xs : List Float} {sum : Float}
    (h : form sum = .notANumber ∨ ∃ x ∈ xs, form x = .notANumber) :
    form (xs.foldl (· + ·) sum) = .notANumber := by
  induction xs generalizing sum with
  | nil => simpa using h
  | cons x xs ih =>
    apply ih
    rcases h with h | ⟨y, hy, h⟩
    · exact .inl (notANumber_add h)
    · rcases List.mem_cons.1 hy with rfl | hy
      · exact .inl (add_notANumber h)
      · exact .inr ⟨y, hy, h⟩

theorem form_total_of_notANumber {xs : List Float} (h : ∃ x ∈ xs, form x = .notANumber) :
    form (total xs) = .notANumber :=
  form_foldl_of_notANumber (.inr h)

theorem form_mean_of_notANumber {xs : List Float} (h : ∃ x ∈ xs, form x = .notANumber) :
    form (mean xs) = .notANumber := by
  obtain ⟨x, hx, -⟩ := id h
  have hne : xs.isEmpty = false := by
    rw [List.isEmpty_eq_false_iff]
    exact List.ne_nil_of_mem hx
  rw [mean, hne]
  exact notANumber_div (form_total_of_notANumber h)

theorem not_isFinite_of_notANumber (hx : form x = .notANumber) : ¬ Scalar.isFinite x = true := by
  rw [← denotes_iff_isFinite]
  rintro ⟨r, hr⟩
  exact hr.ne_notANumber hx

theorem not_isFinite_of_infinity {t : Sign} (hx : form x = .infinity t) :
    ¬ Scalar.isFinite x = true := by
  rw [← denotes_iff_isFinite]
  rintro ⟨r, hr⟩
  exact hr.ne_infinity hx

theorem isFinite_hundredths_iff :
    Scalar.isFinite (hundredths x) = true ↔ Scalar.isFinite (x * 100.0) = true := by
  show Scalar.isFinite (Binary64.round (x * 100.0) / 100.0) = true ↔ _
  generalize x * 100.0 = y
  rcases form_cases y with ⟨r, hr⟩ | ⟨t, ht⟩ | hn
  · obtain ⟨w, hw, hle⟩ := hr.within.round
    have hquotient : |w / 100| ≤ 2 ^ 1018 := by
      rw [abs_div, abs_of_pos (by norm_num : (0 : ℚ) < 100), div_le_iff₀ (by norm_num)]
      calc |w| ≤ 2 ^ 1018 * 2 ^ 6 := by rwa [← pow_add]
        _ ≤ 2 ^ 1018 * 100 := mul_le_mul_of_nonneg_left (by norm_num) (by positivity)
    have hwithin := (div_roundsTo hw denotes_hundred (by norm_num)).within hquotient (by norm_num)
    exact iff_of_true hwithin.isFinite hr.within.isFinite
  · rw [round_infinity ht]
    have hquotient := infinity_div ht denotes_hundred (by norm_num)
    exact iff_of_false (not_isFinite_of_infinity hquotient) (not_isFinite_of_infinity ht)
  · rw [round_notANumber hn]
    exact iff_of_false (not_isFinite_of_notANumber (notANumber_div hn)) (not_isFinite_of_notANumber hn)

end undefined

end CodeQuality.Binary64
