import CodeQuality.Config.Basic
import CodeQuality.Proofs.Binary64.Arithmetic

/-!
# Weights that are rescaled

Which weights the repair makes sound. `Weights.fault?_normalize_iff`: dividing by the sum leaves no
fault exactly when the sum is a number.

If it is, it is at least each weight, so the quotients are between `0` and `1`, and the rounding of
the sums and of the quotients is far below the tolerance (`RoundedSum.error`). If the weights add up
to an infinite sum, the quotients of numbers are all zero and those of infinite weights undefined.
`Weights.fault?_repair_iff` adds the weights that are not divided at all: those that cannot be
rescaled are replaced, and those with a balanced sum stay as they are, fault included.
-/

namespace CodeQuality

open Scalar Binary64

/-! ## Checking weights -/

theorem Weights.mem_checked (c : Category) : c ∈ checked := by
  cases c <;> simp [checked]

theorem Weights.fault?_eq_none_iff {α : Type} [Scalar α] {w : Weights α} :
    fault? w = none ↔ (∀ c, inRange (w.get c) = true) ∧ isUnbalanced w = false := by
  unfold fault?
  split
  next c hc =>
    have hout := List.find?_some hc
    simp only [Bool.not_eq_true'] at hout
    simp only [reduceCtorEq, false_iff, not_and]
    intro h
    rw [h c] at hout
    nomatch hout
  next hall =>
    have hin : ∀ c, inRange (w.get c) = true := by
      intro c
      simpa using List.find?_eq_none.1 hall c (mem_checked c)
    cases isUnbalanced w <;> simp [hin]

theorem Weights.isRescalable_iff {α : Type} [Scalar α] {w : Weights α} :
    isRescalable w = true ↔ (0.0 : α) < sum w ∧ ∀ c, (0.0 : α) ≤ w.get c := by
  rw [isRescalable, Bool.and_eq_true, decide_eq_true_iff, List.all_eq_true]
  constructor
  · rintro ⟨hsum, hall⟩
    exact ⟨hsum, fun c => by simpa using hall c (mem_checked c)⟩
  · rintro ⟨hsum, hall⟩
    exact ⟨hsum, fun c _ => by simpa using hall c⟩

/-! ## The numbers of the check -/

theorem denotes_tolerance : ∃ t, Denotes Weights.tolerance t ∧ 2 ^ (-48 : ℤ) < t ∧ t < 1 := by
  have hform : form Weights.tolerance =
      .finite .positive 4611686018427388 (-62) (by norm_num) := rfl
  have hcanonical : Canonical (.finite .positive 4611686018427388 (-62) (by norm_num)) :=
    ⟨by norm_num, by norm_num, .inl (by norm_num)⟩
  refine ⟨_, .of_form hform hcanonical, ?_⟩
  rw [value, signed]
  norm_num

theorem inRange_iff {x : Float} :
    Weights.inRange x = true ↔ ∃ r, Denotes x r ∧ 0 ≤ r ∧ r ≤ 1 := by
  rw [Weights.inRange, Bool.and_eq_true, decide_eq_true_iff, decide_eq_true_iff]
  constructor
  · rintro ⟨hlo, hhi⟩
    exact denotes_of_between denotes_zero denotes_one hlo hhi
  · rintro ⟨r, hr, hlo, hhi⟩
    exact ⟨(denotes_zero.le_iff hr).2 hlo, (hr.le_iff denotes_one).2 hhi⟩

theorem isUnbalanced_iff {w : Weights Float} {d : ℚ} (h : Denotes (Weights.sum w - 1.0) d) :
    ∃ t, 2 ^ (-48 : ℤ) < t ∧ t < 1 ∧ (Weights.isUnbalanced w = true ↔ t < |d|) := by
  obtain ⟨t, ht, hlo, hhi⟩ := denotes_tolerance
  refine ⟨t, hlo, hhi, ?_⟩
  rw [Weights.isUnbalanced, decide_eq_true_iff]
  exact ht.lt_iff (denotes_magnitude h)

/-! ## Rounded sums -/

/-- `s` is the sum of numbers that are not negative, rounded after each step. -/
structure RoundedSum (r : ByCategory ℚ) (s : ℚ) : Prop where
  onGrid : ∀ c, OnGrid (r.get c)
  nonneg : ∀ c, 0 ≤ r.get c
  steps : ∃ p q, Nearest (r.typeCheck + r.lint) p ∧ Nearest (p + r.coverage) q ∧
    Nearest (q + r.complexity) s

/-- The exact sum. -/
def exactSum (r : ByCategory ℚ) : ℚ := r.typeCheck + r.lint + r.coverage + r.complexity

/-- A rounded sum is at least each of its parts and has a small relative error. -/
theorem RoundedSum.error {r : ByCategory ℚ} {s : ℚ} (h : RoundedSum r s) :
    (∀ c, r.get c ≤ s) ∧ |exactSum r - s| ≤ s * 2 ^ (-50 : ℤ) := by
  obtain ⟨hgrid, hnonneg, p, q, hp, hq, hs⟩ := h
  have ht := hnonneg .typeCheck
  have hl := hnonneg .lint
  have hc := hnonneg .coverage
  have hx := hnonneg .complexity
  simp only [ByCategory.get] at ht hl hc hx
  obtain ⟨htp, hlp, hperror⟩ := hp.add_bounds (hgrid .typeCheck) (hgrid .lint) ht hl
  obtain ⟨hpq, hcq, hqerror⟩ := hq.add_bounds hp.onGrid (hgrid .coverage) (by linarith) hc
  obtain ⟨hqs, hxs, hserror⟩ := hs.add_bounds hq.onGrid (hgrid .complexity) (by linarith) hx
  constructor
  · intro c
    cases c <;> simp only [ByCategory.get] <;> linarith
  · -- each of the three steps adds numbers up to `s`
    have hunit := two_zpow_pos (-53)
    have hstep {a e : ℚ} (ha : a ≤ 2 * s) (he : e ≤ a * 2 ^ (-53 : ℤ)) :
        e ≤ 2 * s * 2 ^ (-53 : ℤ) := he.trans (mul_le_mul_of_nonneg_right ha hunit.le)
    have h1 := abs_le.1 (hstep (by linarith) hperror)
    have h2 := abs_le.1 (hstep (by linarith) hqerror)
    have h3 := abs_le.1 (hstep (by linarith) hserror)
    have h50 : s * 2 ^ (-50 : ℤ) = 4 * (2 * s * 2 ^ (-53 : ℤ)) := by
      rw [show (-50 : ℤ) = 3 + -53 by norm_num, two_zpow_add]
      norm_num
      ring
    have hs0 : 0 ≤ 2 * s * 2 ^ (-53 : ℤ) := mul_nonneg (by linarith) hunit.le
    rw [exactSum, h50, abs_le]
    constructor <;> linarith [h1.1, h1.2, h2.1, h2.2, h3.1, h3.2]

theorem denotes_sum {w : Weights Float} {r : ByCategory ℚ}
    (hw : ∀ c, Denotes (w.get c) (r.get c)) (hlo : ∀ c, 0 ≤ r.get c) (hhi : ∀ c, r.get c ≤ 1) :
    ∃ s, Denotes (Weights.sum w) s ∧ RoundedSum r s := by
  -- each step stays within a whole number
  have step {x y : Float} {a b : ℚ} (n : ℕ) (hn : n ≤ 4) (hx : Denotes x a) (hy : Denotes y b)
      (ha : 0 ≤ a) (hb : 0 ≤ b) (hab : a + b ≤ n) :
      ∃ z, Denotes (x + y) z ∧ Nearest (a + b) z ∧ 0 ≤ z ∧ z ≤ n := by
    have hn' : (n : ℚ) ≤ 4 := by exact_mod_cast hn
    have hsmall : |a + b| ≤ 2 ^ (1023 : ℤ) :=
      le_two_zpow (by rw [abs_of_nonneg (add_nonneg ha hb)]; linarith)
    obtain ⟨z, hz, hnear⟩ := (add_roundsTo hx hy).denotes hsmall
    exact ⟨z, hz, hnear, hnear.le_of_ge OnGrid.zero (by linarith),
      hnear.le_of_le (OnGrid.natCast (by omega)) hab⟩
  obtain ⟨p, hp, hpnear, hp0, hp2⟩ := step 2 (by norm_num) (hw .typeCheck) (hw .lint) (hlo _)
    (hlo _) (by push_cast; linarith [hhi .typeCheck, hhi .lint])
  obtain ⟨q, hq, hqnear, hq0, hq3⟩ := step 3 (by norm_num) hp (hw .coverage) hp0 (hlo _)
    (by push_cast at hp2 ⊢; linarith [hhi .coverage])
  obtain ⟨s, hs, hsnear, -, -⟩ := step 4 (by norm_num) hq (hw .complexity) hq0 (hlo _)
    (by push_cast at hq3 ⊢; linarith [hhi .complexity])
  exact ⟨s, hs, fun c => (hw c).onGrid, hlo, p, q, hpnear, hqnear, hsnear⟩

theorem roundedSum_of_denotes {w : Weights Float} {s : ℚ} (hw : ∀ c, Nonneg (w.get c))
    (hs : Denotes (Weights.sum w) s) :
    ∃ r : ByCategory ℚ, (∀ c, Denotes (w.get c) (r.get c)) ∧ RoundedSum r s := by
  obtain ⟨q, x, hq, hx, hq0, hx0, hsnear⟩ :=
    denotes_of_add (((hw .typeCheck).add (hw .lint)).add (hw .coverage)) (hw .complexity) hs
  obtain ⟨p, c, hp, hc, hp0, hc0, hqnear⟩ :=
    denotes_of_add ((hw .typeCheck).add (hw .lint)) (hw .coverage) hq
  obtain ⟨t, l, ht, hl, ht0, hl0, hpnear⟩ := denotes_of_add (hw .typeCheck) (hw .lint) hp
  refine ⟨⟨t, l, c, x⟩, ?_, ⟨?_, ?_, p, q, hpnear, hqnear, hsnear⟩⟩
  · intro k
    cases k
    exacts [ht, hc, hx, hl]
  · intro k
    cases k
    exacts [ht.onGrid, hc.onGrid, hx.onGrid, hl.onGrid]
  · intro k
    cases k
    exacts [ht0, hc0, hx0, hl0]

/-! ## Quotients -/

theorem RoundedSum.quotients {r r' : ByCategory ℚ} {s s' : ℚ} (h : RoundedSum r s) (hs : 0 < s)
    (hr' : ∀ c, Nearest (r.get c / s) (r'.get c)) (h' : RoundedSum r' s') :
    |s' - 1| ≤ 2 ^ (-48 : ℤ) := by
  obtain ⟨hle, herror⟩ := h.error
  have hexact : |exactSum r / s - 1| ≤ 2 ^ (-50 : ℤ) := by
    have : exactSum r / s - 1 = (exactSum r - s) / s := by rw [sub_div, div_self hs.ne']
    rw [this, abs_div, abs_of_pos hs, div_le_iff₀ hs, mul_comm]
    exact herror
  -- a quotient is at most `1`, so its error is at most half of the last place below `1`
  have hquotient (c : Category) : |r.get c / s - r'.get c| ≤ 2 ^ (-54 : ℤ) := by
    refine (hr' c).error_le (n := 0) (by norm_num) ?_
    rw [abs_of_nonneg (div_nonneg (h.nonneg c) hs.le), zpow_zero, div_le_one hs]
    exact hle c
  have ht := abs_le.1 (hquotient .typeCheck)
  have hl := abs_le.1 (hquotient .lint)
  have hc := abs_le.1 (hquotient .coverage)
  have hx := abs_le.1 (hquotient .complexity)
  simp only [ByCategory.get] at ht hl hc hx
  have hsplit : exactSum r / s =
      r.typeCheck / s + r.lint / s + r.coverage / s + r.complexity / s := by
    rw [exactSum, add_div, add_div, add_div]
  have hexact' := abs_le.1 hexact
  have herror' := abs_le.1 h'.error.2
  obtain ⟨h48, h50, h54⟩ : (2 : ℚ) ^ (-48 : ℤ) = 1 / 2 ^ 48 ∧ (2 : ℚ) ^ (-50 : ℤ) = 1 / 2 ^ 50 ∧
      (2 : ℚ) ^ (-54 : ℤ) = 1 / 2 ^ 54 := by norm_num
  rw [h54] at ht hl hc hx
  rw [hsplit, h50] at hexact'
  rw [exactSum, h50] at herror'
  have hs' : s' ≤ 2 := by linarith
  rw [h48, abs_le]
  constructor <;> linarith

/-! ## Repair -/

namespace Weights

variable {w : Weights Float}

theorem fault?_quotients {s : ℚ} (hw : ∀ c, Nonneg (w.get c)) (hsum : Denotes (sum w) s)
    (hs : 0 < s) : fault? (w.map (· / sum w)) = none := by
  obtain ⟨r, hr, hrounded⟩ := roundedSum_of_denotes hw hsum
  have hunit (c : Category) : 0 ≤ r.get c / s ∧ r.get c / s ≤ 1 :=
    ⟨div_nonneg (hrounded.nonneg c) hs.le, (div_le_one hs).2 (hrounded.error.1 c)⟩
  have hquotient (c : Category) :
      ∃ y, Denotes (w.get c / sum w) y ∧ Nearest (r.get c / s) y :=
    (div_roundsTo (hr c) hsum hs.ne').denotes
      (le_two_zpow (by rw [abs_of_nonneg (hunit c).1]; linarith [(hunit c).2]))
  choose f hf hnear using hquotient
  have hget (c : Category) : (ByCategory.ofFn f).get c = f c := ByCategory.get_ofFn f c
  have hf' (c : Category) : Denotes ((w.map (· / sum w)).get c) ((ByCategory.ofFn f).get c) := by
    rw [hget, ByCategory.get_map]
    exact hf c
  have hlo (c : Category) : 0 ≤ (ByCategory.ofFn f).get c :=
    hget c ▸ (hnear c).le_of_ge OnGrid.zero (hunit c).1
  have hhi (c : Category) : (ByCategory.ofFn f).get c ≤ 1 :=
    hget c ▸ (hnear c).le_of_le OnGrid.one (hunit c).2
  obtain ⟨s', hs', hrounded'⟩ := denotes_sum hf' hlo hhi
  -- the sum of the quotients is near `1`, and the subtraction of `1` keeps it near
  have hnear1 := hrounded.quotients hs (fun c => by rw [hget]; exact hnear c) hrounded'
  obtain ⟨d, hd, hdnear⟩ := (sub_roundsTo hs' denotes_one).denotes
    (le_two_zpow (hnear1.trans (by norm_num)))
  have hd48 := hdnear.abs_le_of_abs_le (OnGrid.two_zpow (by norm_num)) hnear1
  obtain ⟨t, hlt, -, hiff⟩ := isUnbalanced_iff hd
  refine fault?_eq_none_iff.2 ⟨fun c => inRange_iff.2 ⟨_, hf' c, hlo c, hhi c⟩, ?_⟩
  rw [← Bool.not_eq_true, hiff]
  exact not_lt.2 (hd48.trans hlt.le)

theorem fault?_quotients_of_infinity (hw : ∀ c, Nonneg (w.get c))
    (hsum : form (sum w) = .infinity .positive) : fault? (w.map (· / sum w)) ≠ none := by
  intro hsound
  obtain ⟨hin, hbalanced⟩ := fault?_eq_none_iff.1 hsound
  -- infinite weights have undefined quotients, so all weights are numbers and all quotients zero
  have hzero (c : Category) :
      Denotes ((w.map (· / sum w)).get c) ((ByCategory.ofFn fun _ => (0 : ℚ)).get c) := by
    have hquotient := hin c
    rw [ByCategory.get_map] at hquotient ⊢
    rw [ByCategory.get_ofFn]
    rcases hw c with ⟨r, hr, -⟩ | hinf
    · exact div_infinity hr hsum
    · obtain ⟨r, hr, -⟩ := inRange_iff.1 hquotient
      exact absurd (infinity_div_infinity hinf hsum) hr.ne_notANumber
  obtain ⟨s, hs, hrounded⟩ := denotes_sum hzero (by simp) (by simp)
  obtain ⟨hle, herror⟩ := hrounded.error
  have hs0 : s = 0 := by
    have hnonneg : 0 ≤ s := hle .typeCheck
    have hexact : exactSum (ByCategory.ofFn fun _ => (0 : ℚ)) = 0 := by simp [exactSum, ByCategory.ofFn]
    rw [hexact, zero_sub, abs_neg, abs_of_nonneg hnonneg] at herror
    norm_num at herror
    linarith
  subst hs0
  have hd : Denotes (sum (w.map (· / sum w)) - 1.0) (0 - 1) :=
    (sub_roundsTo hs denotes_one).eq_of_onGrid (le_two_zpow (by norm_num))
      (by simpa using OnGrid.one.neg)
  obtain ⟨t, -, hlt, hiff⟩ := isUnbalanced_iff hd
  rw [hiff.2 (by simpa using hlt)] at hbalanced
  nomatch hbalanced

/-- **Rescaling helps exactly when the sum is a number.** -/
theorem fault?_normalize_iff (hrescalable : isRescalable w = true)
    (hunbalanced : isUnbalanced w = true) :
    fault? (normalize w) = none ↔ isFinite (sum w) = true := by
  obtain ⟨hpos, hw⟩ := isRescalable_iff.1 hrescalable
  have hnonneg (c : Category) : Nonneg (w.get c) := nonneg_iff.1 (hw c)
  have hnormalize : normalize w = w.map (· / sum w) := by
    rw [normalize, hunbalanced, decide_eq_true hpos]
    rfl
  rw [hnormalize, ← denotes_iff_isFinite]
  constructor
  · intro hsound
    have hsum : Nonneg (sum w) :=
      (((hnonneg .typeCheck).add (hnonneg .lint)).add (hnonneg .coverage)).add (hnonneg .complexity)
    rcases hsum with ⟨s, hs, -⟩ | hinf
    · exact ⟨s, hs⟩
    · exact absurd hsound (fault?_quotients_of_infinity hnonneg hinf)
  · rintro ⟨s, hs⟩
    exact fault?_quotients hnonneg hs ((denotes_zero.lt_iff hs).1 hpos)

end Weights

end CodeQuality
