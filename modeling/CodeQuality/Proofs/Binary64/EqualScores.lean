import CodeQuality.Number.Statistics
import CodeQuality.Proofs.Binary64.Relative

/-!
# The slope of equal scores

In exact arithmetic equal values have the slope `0`. Computed from sums that were rounded, the slope of
scores that are all `r` is a quotient of two differences. Both products of the first one are near the same
number (`SumsClose.first_difference`), and the second one stays near its exact value
(`SumsClose.second_difference`), so that the slope is tiny (`slope_le`), though not zero in general.

It is zero if `r` has few enough binary digits for the sums and the products of the first difference to be
exact (`slope_eq_zero`).
-/

namespace CodeQuality.Binary64

open Scalar hiding slope

variable {ys : List Float} {r : ℚ}

/-! ## Sums up to roundings -/

/-- The sums of `n` scores that are all `r`, up to roundings. -/
structure SumsClose (s : LineSums Float) (n : ℕ) (r : ℚ) : Prop where
  x : Approximates s.x (n * (n - 1) / 2) n 119 0
  y : Approximates s.y (n * r) n 62 (-1074)
  xy : Approximates s.xy (n * (n - 1) / 2 * r) (n + 1) 126 (-1074)
  xx : Approximates s.xx (n * (n - 1) * (2 * n - 1) / 6) (n + 1) 183 0

theorem approximates_ofNat {n : ℕ} (hn : n ≤ 2 ^ 53) : Approximates (Float.ofNat n) n 0 64 0 := by
  have hle : n ≤ 2 ^ 64 := hn.trans (by norm_num)
  exact (denotes_ofNat hn).approximates (Nat.cast_nonneg n) (by exact_mod_cast hle)
    (by exact_mod_cast Multiple.intCast n)

theorem approximates_score {y : Float} (hy : Denotes y r) (h0 : 0 ≤ r) (h100 : r ≤ 100) :
    Approximates y r 0 7 (-1074) :=
  hy.approximates h0 (by linarith) hy.onGrid.multiple

theorem sumsClose_of (h0 : 0 ≤ r) (h100 : r ≤ 100) (hlength : ys.length ≤ 2 ^ 53)
    (h : ∀ y ∈ ys, Denotes y r) : SumsClose (LineSums.of ys) ys.length r := by
  -- by the last score: its position is the number of the scores before it, which is exact
  induction ys using List.reverseRecOn with
  | nil =>
    constructor <;> simpa [LineSums.of] using approximates_zero.mono (Nat.zero_le _) le_rfl
  | append_singleton ys y ih =>
    rw [List.length_append, List.length_singleton] at hlength ⊢
    have hsums := ih (by omega) fun z hz => h z (List.mem_append_left _ hz)
    have hn := approximates_ofNat (n := ys.length) (by omega)
    have hy := approximates_score (h y (by simp)) h0 h100
    have hny := hn.mul hy (by norm_num) (by norm_num)
    have hnn := hn.mul hn (by norm_num) (by norm_num)
    have hx := hsums.x.add_absorb (hn.mono (Nat.zero_le _) le_rfl) (by norm_num) (by norm_num)
    have hy' := hsums.y.add_absorb (hy.mono (Nat.zero_le _) le_rfl) (by norm_num) (by norm_num)
    have hxy := hsums.xy.add_absorb (hny.mono (by omega) le_rfl) (by norm_num) (by norm_num)
    have hxx := hsums.xx.add_absorb (hnn.mono (by omega) le_rfl) (by norm_num) (by norm_num)
    rw [LineSums.of_concat]
    constructor
    · exact hx.of_eq (by push_cast; ring)
    · exact hy'.of_eq (by push_cast; ring)
    · exact hxy.of_eq (by push_cast; ring)
    · exact hxx.of_eq (by push_cast; ring)

/-! ## The slope up to roundings -/

/-- What the slope of `n` scores divides by, in exact arithmetic. -/
def exactSpread (n : ℕ) : ℚ := n ^ 2 * (n ^ 2 - 1) / 12

theorem exactSpread_pos {n : ℕ} (hn : 2 ≤ n) : 0 < exactSpread n := by
  have htwo : (2 : ℚ) ≤ n := by exact_mod_cast hn
  have hsquare : (0 : ℚ) < n ^ 2 - 1 := by nlinarith
  unfold exactSpread
  positivity

theorem products_sub (n : ℕ) :
    (n * (n * (n - 1) * (2 * n - 1) / 6) - n * (n - 1) / 2 * (n * (n - 1) / 2) : ℚ) = exactSpread n := by
  unfold exactSpread
  ring

theorem products_add_le {n : ℕ} (hn : 1 ≤ n) :
    (n * (n * (n - 1) * (2 * n - 1) / 6) + n * (n - 1) / 2 * (n * (n - 1) / 2) : ℚ) ≤
      7 * exactSpread n := by
  have hone : (1 : ℚ) ≤ n := by exact_mod_cast hn
  have hrest : (0 : ℚ) ≤ n ^ 2 * (n - 1) := mul_nonneg (sq_nonneg _) (by linarith)
  refine sub_nonneg.1 (hrest.trans_eq ?_)
  unfold exactSpread
  ring

theorem rounds_le {n : ℕ} (hn : n ≤ 2 ^ 40) : (2 * n + 2 : ℕ) * roundoff ≤ 1 / 2 ^ 11 := by
  have hle : ((2 * n + 2 : ℕ) : ℚ) ≤ 2 ^ 42 := by exact_mod_cast (by omega : 2 * n + 2 ≤ 2 ^ 42)
  calc ((2 * n + 2 : ℕ) : ℚ) * roundoff ≤ 2 ^ 42 * roundoff :=
        mul_le_mul_of_nonneg_right hle roundoff_pos.le
    _ = 1 / 2 ^ 11 := by norm_num [roundoff]

section sums

variable {s : LineSums Float} {n : ℕ}

/-- Both products of the first difference are near the same number, so that only their errors remain. -/
theorem SumsClose.first_difference (hs : SumsClose s n r) (hn : n ≤ 2 ^ 40) :
    ∃ a, Denotes (Float.ofNat n * s.xy - s.x * s.y) a ∧ |a| ≤ exactSpread n * (96 * r * roundoff) := by
  have hcount := approximates_ofNat (n := n) (by omega)
  have hnxy := (hcount.mul hs.xy (by norm_num) (by norm_num)).mono (k := 2 * n + 2) (q := 190)
    (by omega) (by norm_num)
  have hxy := (hs.x.mul hs.y (by norm_num) (by norm_num)).mono (k := 2 * n + 2) (q := 190)
    (by omega) (by norm_num)
  obtain ⟨a, ha, herror⟩ :=
    hnxy.sub_error hxy (by norm_num) (by norm_num) (by omega) (by linarith [rounds_le hn])
  have hsame : (n * (n * (n - 1) / 2 * r) : ℚ) = n * (n - 1) / 2 * (n * r) := by ring
  rw [hsame, sub_self, sub_zero] at herror
  refine ⟨a, ha, herror.trans_eq ?_⟩
  unfold exactSpread
  push_cast
  ring

/-- The second difference is large in comparison with the errors of its products. -/
theorem SumsClose.second_difference (hs : SumsClose s n r) (hn : n ≤ 2 ^ 40) (hleast : 2 ≤ n) :
    ∃ d, Denotes (Float.ofNat n * s.xx - s.x * s.x) d ∧ exactSpread n / 2 ≤ d := by
  have hcount := approximates_ofNat (n := n) (by omega)
  have hrounds := rounds_le hn
  have hspread := exactSpread_pos hleast
  have hnxx := (hcount.mul hs.xx (by norm_num) (by norm_num)).mono (k := 2 * n + 2) (q := 247)
    (by omega) (by norm_num)
  have hxx := (hs.x.mul hs.x (by norm_num) (by norm_num)).mono (k := 2 * n + 2) (q := 247)
    (by omega) (by norm_num)
  obtain ⟨d, hd, herror⟩ :=
    hnxx.sub_error hxx (by norm_num) (by norm_num) (by omega) (by linarith)
  rw [products_sub] at herror
  have hsmall : |d - exactSpread n| ≤ exactSpread n / 2 := by
    calc |d - exactSpread n| ≤ _ := herror
      _ ≤ 7 * exactSpread n * (4 * (1 / 2 ^ 11)) := by
          rw [mul_assoc 4]
          exact mul_le_mul (products_add_le (by omega)) (by linarith) (by positivity [roundoff_pos])
            (by linarith)
      _ ≤ exactSpread n / 2 := by linarith
  exact ⟨d, hd, by linarith [(abs_le.1 hsmall).1]⟩

end sums

/-- The slope is a rounded quotient. What is divided has the error of its two products only, and what it
is divided by is at least half of the exact number. -/
theorem slope_roundsTo (h0 : 0 ≤ r) (h100 : r ≤ 100) (hleast : 2 ≤ ys.length)
    (hlength : ys.length ≤ 2 ^ 40) (h : ∀ y ∈ ys, Denotes y r) :
    ∃ a d, Denotes (Float.ofNat ys.length * (LineSums.of ys).xy -
        (LineSums.of ys).x * (LineSums.of ys).y) a ∧
      |a| ≤ exactSpread ys.length * (96 * r * roundoff) ∧ exactSpread ys.length / 2 ≤ d ∧
      RoundsTo (Scalar.slope ys) (a / d) := by
  have hsums := sumsClose_of h0 h100 (by omega) h
  have hspread := exactSpread_pos hleast
  obtain ⟨a, ha, hle⟩ := hsums.first_difference hlength
  obtain ⟨d, hd, hge⟩ := hsums.second_difference hlength hleast
  have hne : ¬ (Float.ofNat ys.length * (LineSums.of ys).xx -
      (LineSums.of ys).x * (LineSums.of ys).x == (0.0 : Float)) = true :=
    mt (hd.beq_iff denotes_zero).1 (by linarith)
  have hslope : Scalar.slope ys =
      (Float.ofNat ys.length * (LineSums.of ys).xy - (LineSums.of ys).x * (LineSums.of ys).y) /
        (Float.ofNat ys.length * (LineSums.of ys).xx - (LineSums.of ys).x * (LineSums.of ys).x) := by
    rw [Scalar.slope, if_neg (by omega)]
    exact if_neg hne
  exact ⟨a, d, ha, hle, hge, hslope ▸ div_roundsTo ha hd (by linarith)⟩

/-- The slope of equal scores is tiny. -/
theorem slope_le (h0 : 0 ≤ r) (h100 : r ≤ 100) (hleast : 2 ≤ ys.length)
    (hlength : ys.length ≤ 2 ^ 40) (h : ∀ y ∈ ys, Denotes y r) :
    ∃ v, Denotes (Scalar.slope ys) v ∧ |v| ≤ r * 2 ^ (-44 : ℤ) := by
  obtain ⟨a, d, -, ha, hd, hrounds⟩ := slope_roundsTo h0 h100 hleast hlength h
  have hspread := exactSpread_pos hleast
  have hdpos : 0 < d := by linarith
  have hquotient : |a / d| ≤ 192 * r * roundoff := by
    rw [abs_div, abs_of_pos hdpos, div_le_iff₀ hdpos]
    calc |a| ≤ exactSpread ys.length / 2 * (192 * r * roundoff) := ha.trans_eq (by ring)
      _ ≤ d * (192 * r * roundoff) :=
          mul_le_mul_of_nonneg_right hd (mul_nonneg (by linarith) roundoff_pos.le)
      _ = 192 * r * roundoff * d := mul_comm _ _
  have hsmall : |a / d| ≤ 2 ^ 0 := by
    refine hquotient.trans ?_
    norm_num [roundoff]
    linarith
  obtain ⟨v, hv, hnearest⟩ := hrounds.denotes (le_two_zpow_of_le (by norm_num) hsmall)
  refine ⟨v, hv, hnearest.abs_le_two_mul.trans ?_⟩
  calc 2 * |a / d| ≤ 2 * (192 * r * roundoff) := by linarith
    _ ≤ r * 2 ^ (-44 : ℤ) := by
        norm_num [roundoff]
        linarith

/-! ## Exact sums -/

section digits

variable {m : ℕ} {q : ℤ}

theorem RoundsTo.denotes_mul {x : Float} {a : ℕ} (h : RoundsTo x (a * r)) (hr : r = m * 2 ^ q)
    (hq : -1074 ≤ q) (h100 : r ≤ 100) (hm : 1 ≤ m) (ham : a * m ≤ 2 ^ 53) : Denotes x (a * r) := by
  have hgrid : OnGrid (a * r) := by
    rw [hr, ← mul_assoc]
    exact_mod_cast OnGrid.of_natCast ham hq
  have ha : (a : ℚ) ≤ 2 ^ 53 := by exact_mod_cast (Nat.le_mul_of_pos_right a hm).trans ham
  have h0 : 0 ≤ r := hr ▸ mul_nonneg (Nat.cast_nonneg m) (two_zpow_pos q).le
  refine h.eq_of_onGrid (le_two_zpow_of_le (k := 60) (by norm_num) ?_) hgrid
  rw [abs_of_nonneg (mul_nonneg (Nat.cast_nonneg a) h0)]
  calc (a : ℚ) * r ≤ 2 ^ 53 * 100 := mul_le_mul ha h100 h0 (by norm_num)
    _ ≤ 2 ^ 60 := by norm_num

/-- The sums of `n` scores that are all `r`, computed exactly. -/
structure SumsExact (s : LineSums Float) (n : ℕ) (r : ℚ) : Prop where
  x : Denotes s.x (n.choose 2)
  y : Denotes s.y (n * r)
  xy : Denotes s.xy (n.choose 2 * r)

theorem sumsExact_of (hr : r = m * 2 ^ q) (hq : -1074 ≤ q) (h100 : r ≤ 100) (hm : 1 ≤ m)
    (hsize : m * ys.length ^ 2 ≤ 2 ^ 53) (h : ∀ y ∈ ys, Denotes y r) :
    SumsExact (LineSums.of ys) ys.length r := by
  induction ys using List.reverseRecOn with
  | nil => constructor <;> simpa [LineSums.of] using denotes_zero
  | append_singleton ys y ih =>
    rw [List.length_append, List.length_singleton] at hsize ⊢
    generalize hn : ys.length = n at ih hsize ⊢
    have hprefix : m * n ^ 2 ≤ 2 ^ 53 :=
      (Nat.mul_le_mul_left m (Nat.pow_le_pow_left n.le_succ 2)).trans hsize
    have hsums := ih hprefix fun z hz => h z (List.mem_append_left _ hz)
    have hy := h y (by simp)
    have hsquare : (n + 1) ^ 2 ≤ 2 ^ 53 := (Nat.le_mul_of_pos_left _ hm).trans hsize
    have hchoose : (n + 1).choose 2 = n.choose 2 + n := by
      rw [Nat.choose_succ_succ, Nat.choose_one_right, Nat.add_comm]
    have hpairs : (n + 1).choose 2 ≤ (n + 1) ^ 2 := Nat.choose_le_pow _ _
    have hposition : Denotes (Float.ofNat n) n := denotes_ofNat (by nlinarith)
    have hproduct : Denotes (Float.ofNat n * y) (n * r) :=
      (mul_roundsTo hposition hy).denotes_mul hr hq h100 hm (by nlinarith)
    have hx := add_roundsTo hsums.x hposition
    have hy' := add_roundsTo hsums.y hy
    have hxy := add_roundsTo hsums.xy hproduct
    rw [← Nat.cast_add, ← hchoose] at hx
    rw [← add_one_mul, ← Nat.cast_succ] at hy'
    rw [← add_mul, ← Nat.cast_add, ← hchoose] at hxy
    rw [LineSums.of_concat, hn]
    constructor
    · exact hx.denotes_natCast (hpairs.trans hsquare)
    · exact hy'.denotes_mul hr hq h100 hm (by nlinarith)
    · exact hxy.denotes_mul hr hq h100 hm (by nlinarith)

/-- Both products of the first difference are exact, and so the same number. -/
theorem slope_eq_zero (hr : r = m * 2 ^ q) (hq : -1074 ≤ q) (h100 : r ≤ 100)
    (hsize : m * ys.length ^ 3 ≤ 2 ^ 54) (hleast : 2 ≤ ys.length) (hlength : ys.length ≤ 2 ^ 40)
    (h : ∀ y ∈ ys, Denotes y r) : Denotes (Scalar.slope ys) 0 := by
  have h0 : 0 ≤ r := hr ▸ mul_nonneg (Nat.cast_nonneg m) (two_zpow_pos q).le
  rcases Nat.eq_zero_or_pos m with rfl | hm
  · rw [Nat.cast_zero, zero_mul] at hr
    obtain ⟨v, hv, hle⟩ := slope_le h0 h100 hleast hlength h
    rw [hr, zero_mul, abs_nonpos_iff] at hle
    exact hle ▸ hv
  obtain ⟨a, d, ha, -, -, hslope⟩ := slope_roundsTo h0 h100 hleast hlength h
  have hsums := sumsExact_of hr hq h100 hm (by nlinarith) h
  generalize ys.length = n at *
  have hpairs : n.choose 2 * 2 ≤ n * n := by
    rw [Nat.choose_two_right]
    exact (Nat.div_mul_le_self _ _).trans (Nat.mul_le_mul_left n (Nat.sub_le n 1))
  have hproduct : n * n.choose 2 * m ≤ 2 ^ 53 := by nlinarith
  -- the number of scores times that of their pairs, in either order
  have hnxy := mul_roundsTo (denotes_ofNat (n := n) (by omega)) hsums.xy
  have hxy := mul_roundsTo hsums.x hsums.y
  rw [← mul_assoc, ← Nat.cast_mul] at hnxy
  rw [← mul_assoc, ← Nat.cast_mul, mul_comm (n.choose 2)] at hxy
  have hdifference := sub_roundsTo (hnxy.denotes_mul hr hq h100 hm hproduct)
    (hxy.denotes_mul hr hq h100 hm hproduct)
  rw [sub_self] at hdifference
  have ha0 : a = 0 := (hdifference.nearest ha).eq_of_onGrid OnGrid.zero
  rw [ha0, zero_div] at hslope
  exact_mod_cast hslope.denotes_natCast (n := 0) (by norm_num)

end digits

end CodeQuality.Binary64
