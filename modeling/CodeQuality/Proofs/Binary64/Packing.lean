import CodeQuality.Number.Binary64
import CodeQuality.Proofs.Binary64.Rounding

/-!
# Packed floating point

A floating-point value is 64 bits; what its bits say is an unpacked form. Unpacking yields canonical
forms only (`canonical_unpack`), and packing keeps a canonical form unless its exponent is too large,
which makes it infinite (`unpack_pack_finite`).

`Denotes x r` says that the value `x` is the number `r`. Values that are numbers compare as the
numbers do (`Denotes.le_iff`, `Denotes.lt_iff`), and between two numbers there are only numbers
(`denotes_of_between`).
-/

namespace CodeQuality.Binary64

open Float.Model Float.Model.UnpackedFloat

/-! ## Fields -/

/-- The form that sign, exponent and mantissa fields stand for. -/
def ofFields (s : Sign) (e : BitVec 11) (m : BitVec 52) : UnpackedFloat :=
  if e = -1#11 then if m = 0#52 then .infinity s else .notANumber
  else if e = 0#11 then
    if h : m = 0#52 then .zero s
    else .finite s m.toNat (-1074) (by simpa [BitVec.toNat_pos, BitVec.pos_iff_ne_zero])
  else .finite s (2 ^ 52 + m.toNat) (e.toNat - 1075) (by positivity)

theorem unpack_eq (b : BitVec Format.binary64.numBits) :
    UnpackedFloat.unpack Format.binary64 b =
      ofFields (.ofBitVec (unpackSign b)) (unpackExponent b) (unpackMantissa b) := by
  have happend (m : BitVec 52) : (1#1 ++ m).toNat = 2 ^ 52 + m.toNat := by
    rw [BitVec.toNat_append, ← Nat.shiftLeft_add_eq_or_of_lt m.isLt]
    rfl
  simp only [UnpackedFloat.unpack, ofFields, happend]
  split
  · rfl
  · split
    next he =>
      rw [he]
      rfl
    · rfl

theorem unpack_packComponents (s : Sign) (e : BitVec 11) (m : BitVec 52) :
    UnpackedFloat.unpack Format.binary64 (packComponents Format.binary64 s e m) =
      ofFields s e m := by
  rw [unpack_eq, unpackMantissa_packComponents, unpackExponent_packComponents,
    unpackSign_packComponents, Sign.ofBitVec_toBitVec]

theorem ofFields_normal {s : Sign} {b m : ℕ} (hb : 0 < b) (hb' : b < 2047) (hlo : 2 ^ 52 ≤ m)
    (hhi : m < 2 ^ 53) :
    ofFields s (BitVec.ofNat 11 b) (BitVec.ofNat 52 m) = .finite s m (b - 1075) (by omega) := by
  have he : (BitVec.ofNat 11 b).toNat = b := by
    rw [BitVec.toNat_ofNat, Nat.mod_eq_of_lt (by omega)]
  have hm : 2 ^ 52 + (BitVec.ofNat 52 m).toNat = m := by
    rw [BitVec.toNat_ofNat]
    omega
  rw [ofFields, if_neg, if_neg]
  · simp only [he, hm]
  · rw [← BitVec.toNat_inj, he]
    show b ≠ 0
    omega
  · rw [← BitVec.toNat_inj, he]
    show b ≠ 2047
    omega

theorem ofFields_subnormal {s : Sign} {m : ℕ} (hm : 0 < m) (hhi : m < 2 ^ 52) :
    ofFields s 0#11 (BitVec.ofNat 52 m) = .finite s m (-1074) hm := by
  have hm' : (BitVec.ofNat 52 m).toNat = m := by
    rw [BitVec.toNat_ofNat, Nat.mod_eq_of_lt (by omega)]
  have hne : BitVec.ofNat 52 m ≠ 0#52 := by
    rw [ne_eq, ← BitVec.toNat_inj, hm']
    exact hm.ne'
  rw [ofFields, if_neg (by decide), if_pos rfl, dif_neg hne]
  simp only [hm']

theorem canonical_of_ofFields {s s' : Sign} {e : BitVec 11} {k : BitVec 52} {m : ℕ} {q : ℤ}
    {hm : 0 < m} (h : ofFields s' e k = .finite s m q hm) :
    Canonical (.finite s m q hm) ∧ q ≤ 971 := by
  have hk := k.isLt
  unfold ofFields at h
  split at h
  · split at h <;> cases h
  next hinf =>
    split at h
    · split at h <;> cases h
      exact ⟨⟨by omega, by omega, .inr rfl⟩, by omega⟩
    next hzero =>
      cases h
      have he : e.toNat ≠ 2047 := fun h => hinf (BitVec.eq_of_toNat_eq h)
      have he' : e.toNat ≠ 0 := fun h => hzero (BitVec.eq_of_toNat_eq h)
      have hlt := e.isLt
      exact ⟨⟨by omega, by omega, .inl (by omega)⟩, by omega⟩

/-! ## Packing and unpacking -/

theorem canonical_unpack {x : Float.Model} {s : Sign} {m : ℕ} {q : ℤ} {hm : 0 < m}
    (h : x.unpack = .finite s m q hm) : Canonical (.finite s m q hm) ∧ q ≤ 971 := by
  rw [Float.Model.unpack, unpack_eq] at h
  exact canonical_of_ofFields h

theorem unpack_pack_zero (s : Sign) : (Float.Model.pack (.zero s)).unpack = .zero s := by
  cases s <;> rfl

theorem unpack_pack_infinity (s : Sign) :
    (Float.Model.pack (.infinity s)).unpack = .infinity s := by
  cases s <;> rfl

theorem unpack_pack_notANumber : (Float.Model.pack .notANumber).unpack = .notANumber := rfl

/-- Packing keeps a canonical form whose exponent fits; the others become infinite. -/
theorem unpack_pack_finite {s : Sign} {m : ℕ} {q : ℤ} {hm : 0 < m}
    (h : Canonical (.finite s m q hm)) :
    (Float.Model.pack (.finite s m q hm)).unpack =
      if q ≤ 971 then .finite s m q hm else .infinity s := by
  obtain ⟨hlt, hmin, hfull⟩ := h
  obtain ⟨b, hb⟩ : ∃ b, (q + 1075).toNat = b := ⟨_, rfl⟩
  have hbiased : (q + 1023 + 52).toNat = b := by omega
  show UnpackedFloat.unpack Format.binary64
    (if 2 ^ 11 ≤ (q + 1023 + 52).toNat + 1 then packedInfinity Format.binary64 s
      else if m.log2 + 1 = 53 then
        packComponents Format.binary64 s (BitVec.ofNat 11 (q + 1023 + 52).toNat) (BitVec.ofNat 52 m)
      else packComponents Format.binary64 s 0#11 (BitVec.ofNat 52 m)) = _
  rw [hbiased]
  by_cases hbig : q ≤ 971
  · rw [if_pos hbig, if_neg (by omega)]
    -- packing tells a full mantissa by its length, unpacking by the exponent field
    by_cases hnormal : 2 ^ 52 ≤ m
    · have hlog : m.log2 + 1 = 53 := by
        have := (Nat.log2_eq_iff hm.ne').2 ⟨hnormal, hlt⟩
        omega
      have hexponent : (b : ℤ) - 1075 = q := by omega
      rw [if_pos hlog, unpack_packComponents, ofFields_normal (by omega) (by omega) hnormal hlt]
      simp only [hexponent]
    · have hlog : m.log2 + 1 ≠ 53 := by
        have := (Nat.log2_lt hm.ne').2 (not_le.1 hnormal)
        omega
      rw [if_neg hlog, unpack_packComponents, ofFields_subnormal hm (not_le.1 hnormal)]
      simp only [hfull.resolve_left hnormal]
  · rw [if_neg hbig, if_pos (by omega)]
    cases s <;> rfl

theorem Canonical.abs_value_lt_iff {s : Sign} {m : ℕ} {q : ℤ} {hm : 0 < m}
    (h : Canonical (.finite s m q hm)) :
    |value (.finite s m q hm)| < 2 ^ (1024 : ℤ) ↔ q ≤ 971 := by
  obtain ⟨hlt, hmin, hfull⟩ := h
  have hpos := two_zpow_pos q
  have habs : |value (.finite s m q hm)| = m * 2 ^ q := by
    have : (0 : ℚ) ≤ m * 2 ^ q := by positivity
    cases s <;> simp only [value, signed, abs_neg, abs_of_nonneg this]
  rw [habs]
  constructor
  · intro hval
    by_contra hbig
    have hm' : (2 : ℚ) ^ 52 ≤ m := by exact_mod_cast hfull.resolve_right (by omega)
    have : (2 : ℚ) ^ (1024 : ℤ) ≤ m * 2 ^ q := by
      calc (2 : ℚ) ^ (1024 : ℤ) ≤ 2 ^ (52 + q) := zpow_le_zpow_right₀ (by norm_num) (by omega)
        _ = 2 ^ 52 * 2 ^ q := two_zpow_add 52 q
        _ ≤ m * 2 ^ q := mul_le_mul_of_nonneg_right hm' hpos.le
    exact absurd hval (not_lt.2 this)
  · intro hq
    have hm' : (m : ℚ) < 2 ^ 53 := by exact_mod_cast hlt
    calc (m : ℚ) * 2 ^ q < 2 ^ 53 * 2 ^ q := mul_lt_mul_of_pos_right hm' hpos
      _ = 2 ^ (53 + q) := (two_zpow_add 53 q).symm
      _ ≤ 2 ^ (1024 : ℤ) := zpow_le_zpow_right₀ (by norm_num) (by omega)

/-! ## Values that are numbers -/

/-- What a floating-point value says when it is unpacked. -/
def form (x : Float) : UnpackedFloat := x.toModel.unpack

/-- The floating-point value `x` is the number `r`. -/
structure Denotes (x : Float) (r : ℚ) : Prop where
  canonical : Canonical (form x)
  value_eq : value (form x) = r

theorem Denotes.onGrid {x : Float} {r : ℚ} (h : Denotes x r) : OnGrid r :=
  h.value_eq ▸ h.canonical.onGrid

theorem Denotes.unique {x : Float} {r r' : ℚ} (h : Denotes x r) (h' : Denotes x r') : r = r' :=
  h.value_eq.symm.trans h'.value_eq

theorem Denotes.of_form {x : Float} {u : UnpackedFloat} (h : form x = u) (hu : Canonical u) :
    Denotes x (value u) := by
  subst h
  exact ⟨hu, rfl⟩

theorem form_cases (x : Float) :
    (∃ r, Denotes x r) ∨ (∃ s, form x = .infinity s) ∨ form x = .notANumber := by
  cases h : form x with
  | infinity s => exact .inr (.inl ⟨s, rfl⟩)
  | notANumber => exact .inr (.inr rfl)
  | zero s => exact .inl ⟨_, by rw [h]; trivial, rfl⟩
  | finite s m q hm => exact .inl ⟨_, h ▸ (canonical_unpack h).1, rfl⟩

theorem denotes_iff_isFinite (x : Float) : (∃ r, Denotes x r) ↔ Scalar.isFinite x = true := by
  have hparts : nonFinite? x = match form x with
      | .infinity .negative => some .negInfinity
      | .infinity .positive => some .infinity
      | .notANumber => some .nan
      | _ => none := by
    rw [nonFinite?, parts, form]
    cases x.toModel.unpack with
    | infinity s => cases s <;> rfl
    | notANumber => rfl
    | zero s => cases s <;> rfl
    | finite s m q hm => cases s <;> rfl
  show _ ↔ (nonFinite? x).isNone = true
  rw [hparts]
  constructor
  · rintro ⟨r, hr, -⟩
    revert hr
    cases form x <;> simp [Canonical]
  · intro h
    rcases form_cases x with hr | ⟨s, hs⟩ | hn
    · exact hr
    · rw [hs] at h
      cases s <;> simp at h
    · rw [hn] at h
      simp at h

/-! ## Comparison -/

theorem compare_mantissas {m n : ℕ} {p q : ℤ} (hm : m < 2 ^ 53 ∧ (2 ^ 52 ≤ m ∨ p = -1074))
    (hn : n < 2 ^ 53 ∧ (2 ^ 52 ≤ n ∨ q = -1074)) (hp : -1074 ≤ p) (hq : -1074 ≤ q) :
    (compare p q).then (compare m n) = compare ((m : ℚ) * 2 ^ p) (n * 2 ^ q) := by
  -- a smaller exponent decides, because the larger one goes with a full mantissa
  have below {m n : ℕ} {p q : ℤ} (hm : m < 2 ^ 53) (hn : 2 ^ 52 ≤ n ∨ q = -1074) (hp : -1074 ≤ p)
      (hpq : p < q) : (m : ℚ) * 2 ^ p < n * 2 ^ q := by
    have hm' : (m : ℚ) < 2 ^ 53 := by exact_mod_cast hm
    have hn' : (2 : ℚ) ^ 52 ≤ n := by exact_mod_cast hn.resolve_right (by omega)
    calc (m : ℚ) * 2 ^ p < 2 ^ 53 * 2 ^ p := mul_lt_mul_of_pos_right hm' (two_zpow_pos p)
      _ = 2 ^ (53 + p) := (two_zpow_add 53 p).symm
      _ ≤ 2 ^ (52 + q) := zpow_le_zpow_right₀ (by norm_num) (by omega)
      _ = 2 ^ 52 * 2 ^ q := two_zpow_add 52 q
      _ ≤ n * 2 ^ q := mul_le_mul_of_nonneg_right hn' (two_zpow_pos q).le
  rcases lt_trichotomy p q with h | rfl | h
  · rw [Int.compare_eq_lt.2 h, compare_lt_iff_lt.2 (below hm.1 hn.2 hp h)]
    rfl
  · rw [Int.compare_eq_eq.2 rfl]
    show compare m n = _
    have hpos := two_zpow_pos p
    rcases lt_trichotomy m n with h | rfl | h
    · have : (m : ℚ) * 2 ^ p < n * 2 ^ p := mul_lt_mul_of_pos_right (by exact_mod_cast h) hpos
      rw [Nat.compare_eq_lt.2 h, compare_lt_iff_lt.2 this]
    · rw [Nat.compare_eq_eq.2 rfl, compare_eq_iff_eq.2 rfl]
    · have : (n : ℚ) * 2 ^ p < m * 2 ^ p := mul_lt_mul_of_pos_right (by exact_mod_cast h) hpos
      rw [Nat.compare_eq_gt.2 h, compare_gt_iff_gt.2 this]
  · rw [Int.compare_eq_gt.2 h, compare_gt_iff_gt.2 (below hn.1 hm.2 hq h)]
    rfl

theorem compare_neg_neg (r s : ℚ) : compare (-r) (-s) = (compare r s).swap := by
  rcases lt_trichotomy r s with h | rfl | h
  · rw [compare_lt_iff_lt.2 h, compare_gt_iff_gt.2 (neg_lt_neg h)]
    rfl
  · rw [compare_eq_iff_eq.2 rfl, compare_eq_iff_eq.2 rfl]
    rfl
  · rw [compare_gt_iff_gt.2 h, compare_lt_iff_lt.2 (neg_lt_neg h)]
    rfl

theorem value_pos {m : ℕ} {q : ℤ} (hm : 0 < m) : 0 < value (.finite .positive m q hm) :=
  mul_pos (by exact_mod_cast hm) (two_zpow_pos q)

theorem value_lt_zero {m : ℕ} {q : ℤ} (hm : 0 < m) : value (.finite .negative m q hm) < 0 :=
  neg_lt_zero.2 (mul_pos (by exact_mod_cast hm) (two_zpow_pos q))

theorem compare_finite {s t : Sign} {m n : ℕ} {p q : ℤ} {hm : 0 < m} {hn : 0 < n}
    (hu : Canonical (.finite s m p hm)) (hv : Canonical (.finite t n q hn)) :
    UnpackedFloat.compare (.finite s m p hm) (.finite t n q hn) =
      some (compare (value (.finite s m p hm)) (value (.finite t n q hn))) := by
  have hcompare := compare_mantissas ⟨hu.1, hu.2.2⟩ ⟨hv.1, hv.2.2⟩ hu.2.1 hv.2.1
  cases s with
  | positive =>
    cases t with
    | positive => simp only [UnpackedFloat.compare, hcompare, value, signed]
    | negative =>
      rw [compare_gt_iff_gt.2 ((value_lt_zero hn).trans (value_pos hm))]
      rfl
  | negative =>
    cases t with
    | positive =>
      rw [compare_lt_iff_lt.2 ((value_lt_zero hm).trans (value_pos hn))]
      rfl
    | negative => simp only [UnpackedFloat.compare, hcompare, value, signed, compare_neg_neg]

theorem compare_eq {u v : UnpackedFloat} (hu : Canonical u) (hv : Canonical v) :
    u.compare v = some (compare (value u) (value v)) := by
  rcases hu.zero_or_finite with ⟨s, rfl⟩ | ⟨s, m, p, hm, rfl⟩
  · rcases hv.zero_or_finite with ⟨t, rfl⟩ | ⟨t, n, q, hn, rfl⟩
    · simp [UnpackedFloat.compare]
    · cases t with
      | positive =>
        rw [value_zero, compare_lt_iff_lt.2 (value_pos hn)]
        rfl
      | negative =>
        rw [value_zero, compare_gt_iff_gt.2 (value_lt_zero hn)]
        rfl
  · rcases hv.zero_or_finite with ⟨t, rfl⟩ | ⟨t, n, q, hn, rfl⟩
    · cases s with
      | positive =>
        rw [value_zero, compare_gt_iff_gt.2 (value_pos hm)]
        rfl
      | negative =>
        rw [value_zero, compare_lt_iff_lt.2 (value_lt_zero hm)]
        rfl
    · exact compare_finite hu hv

theorem le_def (x y : Float) : x ≤ y ↔ ((form x).compare (form y)).any (·.isLE) = true := by
  show x.le y = true ↔ _
  rw [Float.le, decide_eq_true_iff]
  rfl

theorem lt_def (x y : Float) : x < y ↔ (form x).compare (form y) = some .lt := by
  show x.lt y = true ↔ _
  rw [Float.lt, decide_eq_true_iff]
  show ((form x).compare (form y) == some .lt) = true ↔ _
  rw [beq_iff_eq]

namespace Denotes

variable {x y : Float} {r s : ℚ}

theorem le_iff (hx : Denotes x r) (hy : Denotes y s) : x ≤ y ↔ r ≤ s := by
  rw [le_def, compare_eq hx.canonical hy.canonical, hx.value_eq, hy.value_eq, Option.any_some,
    Ordering.isLE_iff_ne_gt, ← ne_eq, compare_le_iff_le]

theorem lt_iff (hx : Denotes x r) (hy : Denotes y s) : x < y ↔ r < s := by
  rw [lt_def, compare_eq hx.canonical hy.canonical, hx.value_eq, hy.value_eq, Option.some_inj,
    compare_lt_iff_lt]

end Denotes

theorem not_infinity_le {x y : Float} {s : ℚ} (hx : form x = .infinity .positive)
    (hy : Denotes y s) : ¬ x ≤ y := by
  rw [le_def, hx]
  rcases hy.canonical.zero_or_finite with ⟨t, h⟩ | ⟨t, m, q, hm, h⟩ <;> rw [h]
  · simp [UnpackedFloat.compare]
  · cases t <;> simp [UnpackedFloat.compare]

theorem not_le_negInfinity {x y : Float} {r : ℚ} (hx : Denotes x r)
    (hy : form y = .infinity .negative) : ¬ x ≤ y := by
  rw [le_def, hy]
  rcases hx.canonical.zero_or_finite with ⟨t, h⟩ | ⟨t, m, q, hm, h⟩ <;> rw [h]
  · simp [UnpackedFloat.compare]
  · cases t <;> simp [UnpackedFloat.compare]

theorem not_le_notANumber {x y : Float} (hy : form y = .notANumber) : ¬ x ≤ y := by
  rw [le_def, hy]
  cases form x <;> simp [UnpackedFloat.compare]

theorem denotes_or_infinity_of_le {x a : Float} {r : ℚ} (ha : Denotes a r) (h : a ≤ x) :
    (∃ y, Denotes x y ∧ r ≤ y) ∨ form x = .infinity .positive := by
  rcases form_cases x with ⟨y, hy⟩ | ⟨s, hs⟩ | hn
  · exact .inl ⟨y, hy, (ha.le_iff hy).1 h⟩
  · cases s with
    | negative => exact absurd h (not_le_negInfinity ha hs)
    | positive => exact .inr hs
  · exact absurd h (not_le_notANumber hn)

/-- Nothing but a number is between numbers. -/
theorem denotes_of_between {x a b : Float} {r s : ℚ} (ha : Denotes a r) (hb : Denotes b s)
    (hax : a ≤ x) (hxb : x ≤ b) : ∃ y, Denotes x y ∧ r ≤ y ∧ y ≤ s := by
  rcases denotes_or_infinity_of_le ha hax with ⟨y, hy, hle⟩ | hinf
  · exact ⟨y, hy, hle, (hy.le_iff hb).1 hxb⟩
  · exact absurd hxb (not_infinity_le hinf hb)

end CodeQuality.Binary64
