import CodeQuality.Proofs.Binary64.Grid

/-!
# The rounding of binary floating point

The operations of binary floating point compute a truncated mantissa with two bits about the rest,
shift it to the place of the last digit and round it there. `roundWithAccuracy_rounds`: this gives
the canonical form of a nearest number of the grid. `normalize_rounds` and `divCore_rounds` are the
two ways in which an operation gets there.

What is carried through the shifts is `Truncates`: the mantissa is the whole part of a number, and
the bits tell how the rest compares with a half. The place of the last digit leaves at most 53 digits
and, unless it is the last place of all, not fewer (`mantissa_bounds`).
-/

namespace CodeQuality.Binary64

open Float.Model Float.Model.UnpackedFloat

/-! ## Values and canonical forms -/

/-- A number with a sign. -/
def signed : Sign → ℚ → ℚ
  | .negative, x => -x
  | .positive, x => x

/-- The number that a finite form stands for. -/
def value : UnpackedFloat → ℚ
  | .finite s m q _ => signed s (m * 2 ^ q)
  | _ => 0

/-- The forms of numbers with a full mantissa, or with the smallest exponent; the exponent may be too
large. -/
def Canonical : UnpackedFloat → Prop
  | .zero _ => True
  | .finite _ m q _ => m < 2 ^ 53 ∧ -1074 ≤ q ∧ (2 ^ 52 ≤ m ∨ q = -1074)
  | .infinity _ => False
  | .notANumber => False

/-- `u` is a canonical form of a number that is nearest to `x`. -/
structure Rounds (x : ℚ) (u : UnpackedFloat) : Prop where
  canonical : Canonical u
  nearest : Nearest x (value u)

@[simp] theorem value_zero (s : Sign) : value (.zero s) = 0 := rfl

theorem Canonical.zero_or_finite {u : UnpackedFloat} (h : Canonical u) :
    (∃ s, u = .zero s) ∨ ∃ s m q hm, u = .finite s m q hm := by
  cases u with
  | infinity s => exact h.elim
  | notANumber => exact h.elim
  | zero s => exact .inl ⟨s, rfl⟩
  | finite s m q hm => exact .inr ⟨s, m, q, hm, rfl⟩

theorem Canonical.onGrid {u : UnpackedFloat} (h : Canonical u) : OnGrid (value u) := by
  rcases h.zero_or_finite with ⟨s, rfl⟩ | ⟨s, m, q, hm, rfl⟩
  · exact OnGrid.zero
  · have hgrid := OnGrid.of_natCast (n := m) (q := q) h.1.le h.2.1
    cases s with
    | negative => exact hgrid.neg
    | positive => exact hgrid

theorem Canonical.rounds {u : UnpackedFloat} (h : Canonical u) : Rounds (value u) u :=
  ⟨h, Nearest.of_onGrid h.onGrid⟩

theorem Nearest.signed {x y : ℚ} (h : Nearest x y) (s : Sign) :
    Nearest (signed s x) (Binary64.signed s y) := by
  cases s with
  | negative => exact h.neg
  | positive => exact h

/-! ## Truncated mantissas -/

/-- The mantissa is the whole part of `x`; the bits tell how the rest compares with a half. -/
structure Truncates (em : ExtendedMantissa) (x : ℚ) : Prop where
  le : em.mantissa ≤ x
  lt : x < em.mantissa + 1
  round_iff : em.roundBit = true ↔ em.mantissa + 1 / 2 ≤ x
  exact_iff : em.stickyBit = false ↔ x = em.mantissa ∨ x = em.mantissa + 1 / 2

namespace Truncates

variable {em : ExtendedMantissa} {x : ℚ}

theorem of_exact (m : ℕ) : Truncates (.ofMantissaAndAccuracy m .exact) m := by
  constructor <;> simp [ExtendedMantissa.ofMantissaAndAccuracy]

theorem of_inexact (m : ℕ) {o : Ordering} {f : ℚ} (hpos : 0 < f) (hone : f < 1)
    (hlt : o = .lt ↔ f < 1 / 2) (heq : o = .eq ↔ f = 1 / 2) :
    Truncates (.ofMantissaAndAccuracy m (.inexact o)) (m + f) := by
  cases o with
  | lt =>
    have hf := hlt.1 rfl
    constructor <;> simp only [ExtendedMantissa.ofMantissaAndAccuracy]
    · linarith
    · linarith
    · simpa using hf
    · simpa using ⟨hpos.ne', by simpa using hf.ne⟩
  | eq =>
    have hf := heq.1 rfl
    constructor <;> simp [ExtendedMantissa.ofMantissaAndAccuracy, hf]
    norm_num
  | gt =>
    have hf : 1 / 2 < f := lt_of_le_of_ne (not_lt.1 (mt hlt.2 (by decide)))
      (Ne.symm (mt heq.2 (by decide)))
    constructor <;> simp only [ExtendedMantissa.ofMantissaAndAccuracy]
    · linarith
    · linarith
    · simpa using hf.le
    · simpa using ⟨hpos.ne', by simpa using hf.ne'⟩

theorem shiftRightOne (h : Truncates em x) : Truncates em.shiftRightOne (x / 2) := by
  obtain ⟨m, r, s⟩ := em
  obtain ⟨hle, hlt, hr, hs⟩ := h
  simp only at hle hlt hr hs
  have hbits : (r || s) = false ↔ x = m := by
    rw [Bool.or_eq_false_iff, hs, ← Bool.not_eq_true, hr, not_le]
    constructor
    · rintro ⟨hlt, rfl | rfl⟩
      · rfl
      · exact absurd hlt (lt_irrefl _)
    · rintro rfl
      exact ⟨by linarith, .inl rfl⟩
  rcases Nat.even_or_odd' m with ⟨k, rfl | rfl⟩
  · have hk : (2 * k) / 2 = k := by omega
    constructor <;> simp only [ExtendedMantissa.shiftRightOne, hk, hbits] <;> push_cast at *
    · linarith
    · linarith
    · simp only [Nat.mul_mod_right, bne_self_eq_false, Bool.false_eq_true, false_iff, not_le]
      linarith
    · constructor
      · intro hx
        exact .inl (by linarith)
      · rintro (hx | hx) <;> linarith
  · have hk : (2 * k + 1) / 2 = k := by omega
    have hodd : (2 * k + 1) % 2 = 1 := by omega
    constructor <;> simp only [ExtendedMantissa.shiftRightOne, hk, hbits] <;> push_cast at *
    · linarith
    · linarith
    · simp only [hodd, Nat.one_ne_zero, bne_iff_ne, ne_eq, not_false_eq_true, true_iff]
      linarith
    · constructor
      · intro hx
        exact .inr (by linarith)
      · rintro (hx | hx) <;> linarith

theorem shiftRight (h : Truncates em x) (n : ℕ) : Truncates (em >>> n) (x / 2 ^ n) := by
  show Truncates (n.repeat ExtendedMantissa.shiftRightOne em) (x / 2 ^ n)
  induction n with
  | zero => simpa [Nat.repeat] using h
  | succ n ih =>
    rw [pow_succ, ← div_div]
    exact ih.shiftRightOne

theorem roundedMantissa (h : Truncates em x) :
    (em.roundedMantissa = em.mantissa ∨ em.roundedMantissa = em.mantissa + 1) ∧
      |x - em.roundedMantissa| ≤ x - em.mantissa ∧
      |x - em.roundedMantissa| ≤ em.mantissa + 1 - x := by
  obtain ⟨m, r, s⟩ := em
  obtain ⟨hle, hlt, hr, hs⟩ := h
  simp only at hle hlt hr hs
  have stay : (r = true → x = m + 1 / 2) → |x - m| ≤ x - m ∧ |x - m| ≤ m + 1 - x := by
    intro hhalf
    rw [abs_of_nonneg (by linarith)]
    refine ⟨le_refl _, ?_⟩
    cases r with
    | true => linarith [hhalf rfl]
    | false => linarith [not_le.1 (mt hr.2 Bool.false_ne_true)]
  have step : r = true → |x - ((m + 1 : ℕ) : ℚ)| ≤ x - m ∧ |x - ((m + 1 : ℕ) : ℚ)| ≤ m + 1 - x := by
    intro hround
    have := hr.1 hround
    push_cast
    rw [abs_of_nonpos (by linarith)]
    constructor <;> linarith
  cases r with
  | false =>
    have hrm : (⟨m, false, s⟩ : ExtendedMantissa).roundedMantissa = m := by cases s <;> rfl
    rw [hrm]
    exact ⟨.inl rfl, stay (by simp)⟩
  | true =>
    cases s with
    | true => exact ⟨.inr rfl, step rfl⟩
    | false =>
      -- a tie, which goes to the even one
      have hx : x = m + 1 / 2 := by
        rcases hs.1 rfl with hx | hx
        · linarith [hr.1 rfl]
        · exact hx
      show (m + m % 2 = m ∨ m + m % 2 = m + 1) ∧ |x - ((m + m % 2 : ℕ) : ℚ)| ≤ x - m ∧
        |x - ((m + m % 2 : ℕ) : ℚ)| ≤ m + 1 - x
      rcases Nat.mod_two_eq_zero_or_one m with h | h <;> rw [h]
      · exact ⟨.inl rfl, stay fun _ => hx⟩
      · exact ⟨.inr rfl, step rfl⟩

end Truncates

/-! ## The place of the last digit -/

theorem targetExponent_eq (n : ℤ) : Format.binary64.targetExponent n = max (n - 53) (-1074) := rfl

/-- The place of the last digit of a mantissa at an exponent. -/
def lastPlace (m : ℕ) (q : ℤ) : ℤ := Format.binary64.targetExponent (totalExponent m q)

theorem lastPlace_eq (m : ℕ) (q : ℤ) : lastPlace m q = max (m.log2 + q - 52) (-1074) := by
  rw [lastPlace, targetExponent_eq, totalExponent]
  omega

theorem lastPlace_of_lt {m : ℕ} {q : ℤ} (hm : m < 2 ^ 53) (hq : -1074 ≤ q) : lastPlace m q ≤ q := by
  have : m.log2 ≤ 52 := by
    by_cases h : m = 0
    · simp [h]
    · exact Nat.lt_succ_iff.1 ((Nat.log2_lt h).2 hm)
  rw [lastPlace_eq]
  omega

theorem lastPlace_of_le {m : ℕ} {q : ℤ} (hm : 2 ^ 52 ≤ m) : q ≤ lastPlace m q := by
  have : 52 ≤ m.log2 := (Nat.le_log2 (by omega)).2 hm
  rw [lastPlace_eq]
  omega

theorem shiftToTargetExponent_def (m : ℕ) (q : ℤ) (acc : Accuracy) :
    shiftToTargetExponent Format.binary64 m q acc =
      (ExtendedMantissa.ofMantissaAndAccuracy m acc >>> (lastPlace m q - q).toNat,
        q + ((lastPlace m q - q).toNat : ℤ)) := rfl

theorem shiftToTargetExponent_eq {m : ℕ} {q : ℤ} (hq : q ≤ lastPlace m q) (acc : Accuracy) :
    shiftToTargetExponent Format.binary64 m q acc =
      (ExtendedMantissa.ofMantissaAndAccuracy m acc >>> (lastPlace m q - q).toNat,
        lastPlace m q) := by
  have : q + ((lastPlace m q - q).toNat : ℤ) = lastPlace m q := by omega
  rw [shiftToTargetExponent_def, this]

theorem shiftToTargetExponent_of_lt {m : ℕ} {q : ℤ} (hm : m < 2 ^ 53) (hq : -1074 ≤ q) :
    shiftToTargetExponent Format.binary64 m q .exact = (⟨m, false, false⟩, q) := by
  have : (lastPlace m q - q).toNat = 0 := by
    have := lastPlace_of_lt hm hq
    omega
  rw [shiftToTargetExponent_def, this]
  simp only [Nat.cast_zero, add_zero]
  rfl

theorem shiftToTargetExponent_carry {q : ℤ} (hq : -1074 ≤ q) :
    shiftToTargetExponent Format.binary64 (2 ^ 53) q .exact = (⟨2 ^ 52, false, false⟩, q + 1) := by
  have : (lastPlace (2 ^ 53) q - q).toNat = 1 := by
    rw [lastPlace_eq, Nat.log2_two_pow]
    omega
  rw [shiftToTargetExponent_def, this]
  rfl

theorem mantissa_shiftRight (em : ExtendedMantissa) (n : ℕ) :
    (em >>> n).mantissa = em.mantissa / 2 ^ n := by
  show (n.repeat ExtendedMantissa.shiftRightOne em).mantissa = _
  induction n with
  | zero => simp [Nat.repeat]
  | succ n ih =>
    show (n.repeat ExtendedMantissa.shiftRightOne em).mantissa / 2 = _
    rw [ih, Nat.div_div_eq_div_mul, pow_succ]

theorem mantissa_ofMantissaAndAccuracy (m : ℕ) (acc : Accuracy) :
    (ExtendedMantissa.ofMantissaAndAccuracy m acc).mantissa = m := by
  cases acc with
  | exact => rfl
  | inexact o => cases o <;> rfl

/-- At its last place a number has at most 53 digits, and not fewer above the last place of all. -/
theorem mantissa_bounds {m : ℕ} {q : ℤ} (hq : q ≤ lastPlace m q) :
    m / 2 ^ (lastPlace m q - q).toNat < 2 ^ 53 ∧
      (lastPlace m q = -1074 ∨ 2 ^ 52 ≤ m / 2 ^ (lastPlace m q - q).toNat) := by
  have hplace := lastPlace_eq m q
  generalize lastPlace m q = t at hq hplace ⊢
  obtain ⟨d, hd⟩ : ∃ d, (t - q).toNat = d := ⟨_, rfl⟩
  rw [hd]
  constructor
  · rw [Nat.div_lt_iff_lt_mul (by positivity), ← pow_add]
    exact Nat.lt_log2_self.trans_le (Nat.pow_le_pow_right (by norm_num) (by omega))
  · refine or_iff_not_imp_left.2 fun ht => ?_
    have hm : m ≠ 0 := by
      rintro rfl
      simp only [Nat.log2_zero] at hplace
      omega
    rw [Nat.le_div_iff_mul_le (by positivity), ← pow_add]
    exact (Nat.pow_le_pow_right (by norm_num) (by omega)).trans (Nat.log2_self_le hm)

/-! ## Rounding -/

theorem Truncates.nearest {em : ExtendedMantissa} {x : ℚ} {t : ℤ} (h : Truncates em (x / 2 ^ t))
    (hmin : -1074 ≤ t) (hdigits : em.mantissa < 2 ^ 53) (hfull : t = -1074 ∨ 2 ^ 52 ≤ em.mantissa) :
    Nearest x (em.roundedMantissa * 2 ^ t) := by
  obtain ⟨hr, hlo, hhi⟩ := h.roundedMantissa
  have hpos := two_zpow_pos t
  have hx : x / 2 ^ t * 2 ^ t = x := div_mul_cancel₀ _ hpos.ne'
  have hscaled : |x - em.roundedMantissa * 2 ^ t| = |x / 2 ^ t - em.roundedMantissa| * 2 ^ t := by
    rw [← abs_of_pos hpos, ← abs_mul, sub_mul, abs_of_pos hpos, hx]
  refine Nearest.of_neighbours hfull (OnGrid.of_natCast (by omega) hmin) ?_ ?_
  · calc |x - em.roundedMantissa * 2 ^ t| = |x / 2 ^ t - em.roundedMantissa| * 2 ^ t := hscaled
      _ ≤ (x / 2 ^ t - em.mantissa) * 2 ^ t := mul_le_mul_of_nonneg_right hlo hpos.le
      _ = x - em.mantissa * 2 ^ t := by rw [sub_mul, hx]
  · calc |x - em.roundedMantissa * 2 ^ t| = |x / 2 ^ t - em.roundedMantissa| * 2 ^ t := hscaled
      _ ≤ (em.mantissa + 1 - x / 2 ^ t) * 2 ^ t := mul_le_mul_of_nonneg_right hhi hpos.le
      _ = (em.mantissa + 1) * 2 ^ t - x := by rw [sub_mul, hx]

theorem roundWithAccuracy_form {m : ℕ} {q t : ℤ} {acc : Accuracy} {em : ExtendedMantissa}
    (hfirst : shiftToTargetExponent Format.binary64 m q acc = (em, t)) (hmin : -1074 ≤ t)
    (hr : em.roundedMantissa ≤ 2 ^ 53) (hfull : t = -1074 ∨ 2 ^ 52 ≤ em.roundedMantissa) (s : Sign) :
    Canonical (roundWithAccuracy Format.binary64 s m q acc) ∧
      value (roundWithAccuracy Format.binary64 s m q acc) =
        signed s (em.roundedMantissa * 2 ^ t) := by
  -- the second shift does something only if rounding carried into one more digit
  rcases Nat.lt_or_eq_of_le hr with hlt | heq
  · simp only [roundWithAccuracy, hfirst, shiftToTargetExponent_of_lt hlt hmin]
    split
    next hzero =>
      refine ⟨trivial, ?_⟩
      rw [hzero]
      cases s <;> simp [signed]
    next => exact ⟨⟨hlt, hmin, hfull.symm⟩, rfl⟩
  · simp only [roundWithAccuracy, hfirst, heq, shiftToTargetExponent_carry hmin]
    rw [dif_neg (by norm_num)]
    refine ⟨⟨by norm_num, by omega, .inl (le_refl _)⟩, ?_⟩
    simp only [value, two_zpow_add]
    congr 1
    push_cast
    ring

/-- **Rounding gives a nearest number.** If a mantissa and an accuracy truncate `x` at an exponent
that leaves enough digits, the rounded form is canonical and nearest to `x` with the sign. -/
theorem roundWithAccuracy_rounds {m : ℕ} {q : ℤ} {acc : Accuracy} {x : ℚ}
    (hx : Truncates (.ofMantissaAndAccuracy m acc) (x / 2 ^ q)) (hq : q ≤ lastPlace m q)
    (s : Sign) : Rounds (signed s x) (roundWithAccuracy Format.binary64 s m q acc) := by
  have hfirst := shiftToTargetExponent_eq hq acc
  have hbounds := mantissa_bounds hq
  have hmin : -1074 ≤ lastPlace m q := by
    rw [lastPlace_eq]
    omega
  have hplace : lastPlace m q = q + (lastPlace m q - q).toNat := by omega
  have hem := hx.shiftRight (lastPlace m q - q).toNat
  rw [div_div, ← zpow_natCast, ← two_zpow_add, ← hplace] at hem
  have hmantissa := mantissa_shiftRight (.ofMantissaAndAccuracy m acc) (lastPlace m q - q).toNat
  rw [mantissa_ofMantissaAndAccuracy] at hmantissa
  rw [← hmantissa] at hbounds
  have hrounded := hem.roundedMantissa.1
  have hnearest := hem.nearest hmin hbounds.1 hbounds.2
  obtain ⟨hcanonical, hvalue⟩ :=
    roundWithAccuracy_form hfirst hmin (by omega) (hbounds.2.imp_right fun h => by omega) s
  exact ⟨hcanonical, hvalue ▸ hnearest.signed s⟩

/-! ## Exact numbers and quotients -/

theorem value_decreaseExponent (m : ℕ) (q t : ℤ) :
    ((decreaseExponent m q t).1 : ℚ) * 2 ^ (decreaseExponent m q t).2 = m * 2 ^ q := by
  simp only [decreaseExponent, Nat.shiftLeft_eq]
  rw [Nat.cast_mul, Nat.cast_pow, Nat.cast_ofNat, mul_assoc, ← zpow_natCast, ← two_zpow_add]
  congr 2
  ring

theorem round_rounds {m : ℕ} (hm : 0 < m) (q : ℤ) (s : Sign) :
    Rounds (signed s (m * 2 ^ q)) (UnpackedFloat.round Format.binary64 s m q) := by
  have hvalue := value_decreaseExponent m q (lastPlace m q)
  have hplace : (decreaseExponent m q (lastPlace m q)).2 ≤
      lastPlace (decreaseExponent m q (lastPlace m q)).1 (decreaseExponent m q (lastPlace m q)).2 := by
    have hlog : m.log2 + (q - lastPlace m q).toNat ≤ (m <<< (q - lastPlace m q).toNat).log2 := by
      rw [Nat.shiftLeft_eq, Nat.le_log2 (by positivity), pow_add]
      exact Nat.mul_le_mul_right _ (Nat.log2_self_le hm.ne')
    simp only [decreaseExponent, lastPlace_eq] at hlog ⊢
    omega
  have htruncates : Truncates
      (.ofMantissaAndAccuracy (decreaseExponent m q (lastPlace m q)).1 .exact)
      (m * 2 ^ q / 2 ^ (decreaseExponent m q (lastPlace m q)).2) := by
    rw [← hvalue, mul_div_cancel_right₀ _ (two_zpow_pos _).ne']
    exact Truncates.of_exact _
  exact roundWithAccuracy_rounds htruncates hplace s

theorem normalize_rounds (m q : ℤ) (s : Sign) :
    Rounds (m * 2 ^ q) (UnpackedFloat.normalize Format.binary64 m q s) := by
  rcases lt_trichotomy m 0 with hm | rfl | hm
  · rw [UnpackedFloat.normalize, Int.compare_eq_lt.2 hm]
    have hcast : ((-m).toNat : ℚ) = -m := by exact_mod_cast (by omega : ((-m).toNat : ℤ) = -m)
    have h := round_rounds (m := (-m).toNat) (by omega) q .negative
    rwa [hcast, signed, neg_mul, neg_neg] at h
  · rw [UnpackedFloat.normalize, Int.compare_eq_eq.2 rfl, Int.cast_zero, zero_mul]
    exact ⟨trivial, Nearest.of_onGrid OnGrid.zero⟩
  · rw [UnpackedFloat.normalize, Int.compare_eq_gt.2 hm]
    have hcast : (m.toNat : ℚ) = m := by exact_mod_cast (by omega : (m.toNat : ℤ) = m)
    have h := round_rounds (m := m.toNat) (by omega) q .positive
    rwa [hcast, signed] at h

theorem truncates_div (n : ℕ) {d : ℕ} (hd : 0 < d) :
    Truncates (.ofMantissaAndAccuracy (n / d) (accuracyOfFraction (n % d) d)) ((n : ℚ) / d) := by
  have hpos : (0 : ℚ) < d := by exact_mod_cast hd
  have hlt : ((n % d : ℕ) : ℚ) / d < 1 := by
    rw [div_lt_one hpos]
    exact_mod_cast Nat.mod_lt n hd
  have hsplit : (n : ℚ) / d = (n / d : ℕ) + (n % d : ℕ) / d := by
    rw [add_div' _ _ _ hpos.ne', div_left_inj' hpos.ne']
    exact_mod_cast (Nat.div_add_mod' n d).symm
  rw [hsplit]
  generalize n / d = k
  generalize n % d = r at hlt ⊢
  by_cases hr : r = 0
  · simpa [accuracyOfFraction, hr] using Truncates.of_exact k
  · rw [accuracyOfFraction, if_neg hr]
    refine Truncates.of_inexact k (div_pos (by exact_mod_cast Nat.pos_of_ne_zero hr) hpos) hlt ?_ ?_
    · rw [Nat.compare_eq_lt, div_lt_div_iff₀ hpos (by norm_num), mul_comm 2 r]
      norm_cast
      rw [one_mul]
    · rw [Nat.compare_eq_eq, div_eq_div_iff hpos.ne' (by norm_num), mul_comm 2 r]
      norm_cast
      rw [one_mul]

theorem divCore_digits {m n : ℕ} (hm : 0 < m) (hn : 0 < n) (p q : ℤ) :
    (divCore Format.binary64 m p n q).2.1 ≤
      lastPlace (divCore Format.binary64 m p n q).1 (divCore Format.binary64 m p n q).2.1 := by
  simp only [divCore, targetExponent_eq, totalExponent, Nat.shiftLeft_eq]
  obtain ⟨t, ht⟩ : ∃ t, min (p - q)
    (max ((m.log2 : ℤ) + 1 + p - (n.log2 + 1 + q) - 53) (-1074)) = t := ⟨_, rfl⟩
  rw [ht]
  by_cases hmin : t ≤ -1074
  · rw [lastPlace_eq]
    omega
  · refine lastPlace_of_le ?_
    rw [Nat.le_div_iff_mul_le hn]
    have hd : 52 + (n.log2 + 1) ≤ m.log2 + (p - q - t).toNat := by omega
    calc 2 ^ 52 * n ≤ 2 ^ 52 * 2 ^ (n.log2 + 1) := Nat.mul_le_mul_left _ Nat.lt_log2_self.le
      _ = 2 ^ (52 + (n.log2 + 1)) := (pow_add _ _ _).symm
      _ ≤ 2 ^ (m.log2 + (p - q - t).toNat) := Nat.pow_le_pow_right (by norm_num) hd
      _ = 2 ^ m.log2 * 2 ^ (p - q - t).toNat := pow_add _ _ _
      _ ≤ m * 2 ^ (p - q - t).toNat := Nat.mul_le_mul_right _ (Nat.log2_self_le hm.ne')

theorem divCore_rounds {m n : ℕ} (hm : 0 < m) (hn : 0 < n) (p q : ℤ) (s : Sign) :
    Rounds (signed s (m * 2 ^ p / (n * 2 ^ q)))
      (roundWithAccuracy Format.binary64 s (divCore Format.binary64 m p n q).1
        (divCore Format.binary64 m p n q).2.1 (divCore Format.binary64 m p n q).2.2) := by
  refine roundWithAccuracy_rounds ?_ (divCore_digits hm hn p q) s
  have hle : (divCore Format.binary64 m p n q).2.1 ≤ p - q := min_le_left _ _
  have htruncates := truncates_div (m <<< (p - q - (divCore Format.binary64 m p n q).2.1).toNat) hn
  have hpos : (0 : ℚ) < n := by exact_mod_cast hn
  have hquotient : (m : ℚ) * 2 ^ p / (n * 2 ^ q) / 2 ^ (divCore Format.binary64 m p n q).2.1 =
      ((m <<< (p - q - (divCore Format.binary64 m p n q).2.1).toNat : ℕ) : ℚ) / n := by
    generalize (divCore Format.binary64 m p n q).2.1 = t at hle ⊢
    have hp : (2 : ℚ) ^ p = 2 ^ (p - q - t).toNat * 2 ^ q * 2 ^ t := by
      rw [← zpow_natCast, ← two_zpow_add, ← two_zpow_add]
      congr 1
      omega
    have hq := two_zpow_pos q
    have ht := two_zpow_pos t
    rw [Nat.shiftLeft_eq, hp]
    push_cast
    field_simp
  rw [hquotient]
  exact htruncates

end CodeQuality.Binary64
