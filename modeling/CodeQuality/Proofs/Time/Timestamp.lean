import CodeQuality.Proofs.Decimal.Digits
import CodeQuality.Proofs.Time.Calendar
import CodeQuality.Time.Rfc3339
import Mathlib.Data.List.TakeWhile
import Mathlib.Data.Nat.Digits.Defs

/-!
# Reading timestamps

An instant of the years `0` to `9999` is read as it was written (`Instant.read?_text`). Every field
of a written timestamp has the width that its reader takes, so that the readers can be followed one
after the other.
-/

namespace CodeQuality.Instant

open Time

/-- An instant of the years `0` to `9999`, in a leap second only at the end of a minute. -/
structure Plain (i : Instant) : Prop where
  year : 0 ≤ (Date.ofDays (i.second / 86400)).year ∧
    (Date.ofDays (i.second / 86400)).year ≤ 9999
  nano : i.nano < 1000000000 ∨ i.second % 60 = 59 ∧ i.nano < 2000000000

/-! ### Fields -/

theorem value_zeros (k : Nat) (ds : List Char) :
    Numeral.value (List.replicate k '0' ++ ds) = Numeral.value ds := by
  induction k with
  | zero => rfl
  | succ k ih => exact ih

theorem value_padded (width n : Nat) : Numeral.value (padded width n) = n := by
  rw [padded, value_zeros, Numeral.value_digits]

theorem isDigit_of_mem_padded {width n : Nat} {c : Char} (h : c ∈ padded width n) :
    c.isDigit = true := by
  rcases List.mem_append.1 h with h | h
  · rw [List.eq_of_mem_replicate h]
    rfl
  · exact Decimal.isDigit_of_mem_digits h

theorem length_padded {width n : Nat} (hwidth : 0 < width) (h : n < 10 ^ width) :
    (padded width n).length = width := by
  have hlength : (Decimal.digits n).length ≤ width := Nat.toDigits_length 10 n width hwidth h
  simp only [padded, List.length_append, List.length_replicate]
  omega

theorem isBlank_of_isDigit {c : Char} (h : c.isDigit = true) : Text.isBlank c = false := by
  simp only [Char.isDigit, Bool.and_eq_true, decide_eq_true_eq, UInt32.le_iff_toNat_le] at h
  have hlow : 48 ≤ c.toNat := h.1
  have hhigh : c.toNat ≤ 57 := h.2
  simp [Text.isBlank]
  omega

theorem skipBlanks_cons {c : Char} (h : Text.isBlank c = false) (cs : List Char) :
    Text.skipBlanks (c :: cs) = c :: cs := by
  simp [Text.skipBlanks, h]

variable {width n : Nat}

theorem padded_eq_cons (hwidth : 0 < width) (h : n < 10 ^ width) :
    ∃ c cs, padded width n = c :: cs ∧ c.isDigit = true := by
  have hne : padded width n ≠ [] := by
    intro hnil
    have := length_padded hwidth h
    rw [hnil, List.length_nil] at this
    omega
  obtain ⟨c, cs, hcs⟩ := List.exists_cons_of_ne_nil hne
  have hmem : c ∈ padded width n := by
    rw [hcs]
    exact List.mem_cons_self
  exact ⟨c, cs, hcs, isDigit_of_mem_padded hmem⟩

theorem readNumber_padded (hwidth : 0 < width) (h : n < 10 ^ width) (rest : List Char) :
    readNumber width (padded width n ++ rest) = some (n, rest) := by
  have hlength := length_padded hwidth h
  obtain ⟨c, cs, hcs, -⟩ := padded_eq_cons hwidth h
  have htake : ((padded width n ++ rest).take width).takeWhile Char.isDigit = padded width n := by
    rw [List.take_left' hlength]
    exact List.takeWhile_eq_self_iff.2 fun c hc => isDigit_of_mem_padded hc
  have hdrop : (padded width n ++ rest).drop width = rest := List.drop_left' hlength
  have hne : (padded width n).isEmpty = false := by
    rw [hcs]
    rfl
  simp only [readNumber, htake, hne, value_padded, hlength, hdrop, Bool.false_eq_true, if_false]

theorem readField_padded (hwidth : 0 < width) (h : n < 10 ^ width) (rest : List Char) :
    readField width (padded width n ++ rest) = some (n, rest) := by
  obtain ⟨c, cs, hcs, hc⟩ := padded_eq_cons hwidth h
  have hskip : Text.skipBlanks (padded width n ++ rest) = padded width n ++ rest := by
    rw [hcs, List.cons_append, skipBlanks_cons (isBlank_of_isDigit hc)]
  rw [readField, hskip, readNumber_padded hwidth h]

theorem readMark_cons {c : Char} (h : Text.isBlank c = false) (cs : List Char) :
    readMark c (c :: cs) = some cs := by
  rw [readMark, skipBlanks_cons h]
  exact if_pos rfl

theorem readYear_yearChars {year : Int} (h : 0 ≤ year ∧ year ≤ 9999) (rest : List Char) :
    readYear (yearChars year ++ rest) = some (year, rest) := by
  have hfour : year.toNat < 10 ^ 4 := by omega
  obtain ⟨c, cs, hcs, hc⟩ := padded_eq_cons (by decide) hfour
  have hread := readNumber_padded (by decide) hfour rest
  have hyear : ((year.toNat : Nat) : Int) = year := by omega
  rw [yearChars, if_pos h]
  rw [hcs, List.cons_append] at hread ⊢
  rw [readYear, skipBlanks_cons (isBlank_of_isDigit hc)]
  split
  next heq =>
    rw [(List.cons.inj heq).1] at hc
    exact absurd hc (by decide)
  next heq =>
    rw [(List.cons.inj heq).1] at hc
    exact absurd hc (by decide)
  next =>
    rw [hread, Option.map_some, hyear]

theorem readFraction_fractionChars {nano : Nat} (h : nano < 1000000000) :
    readFraction (fractionChars nano ++ ['Z']) = some (nano, ['Z']) := by
  have hread : ∀ {width n : Nat}, 0 < width → width ≤ 9 → n < 10 ^ width →
      readFraction ('.' :: padded width n ++ ['Z']) = some (n * 10 ^ (9 - width), ['Z']) := by
    intro width n hwidth hnine hn
    have hlength := length_padded hwidth hn
    obtain ⟨c, cs, hcs, -⟩ := padded_eq_cons hwidth hn
    have htake : (padded width n ++ ['Z']).takeWhile Char.isDigit = padded width n := by
      rw [List.takeWhile_append_of_pos fun c hc => isDigit_of_mem_padded hc]
      exact List.append_nil _
    have hne : (padded width n).isEmpty = false := by
      rw [hcs]
      rfl
    have hkept : (padded width n).take 9 = padded width n := List.take_of_length_le (by omega)
    have hdrop : (padded width n ++ ['Z']).drop width = ['Z'] := List.drop_left' hlength
    simp only [List.cons_append, readFraction, htake, hne, hkept, hlength, value_padded, hdrop,
      Bool.false_eq_true, if_false]
    rfl
  unfold fractionChars
  split
  next hzero => rw [hzero]; rfl
  split
  next hmilli =>
    rw [hread (by decide) (by decide) (by omega)]
    congr 2
    omega
  split
  next hmicro =>
    rw [hread (by decide) (by decide) (by omega)]
    congr 2
    omega
  next =>
    rw [hread (by decide) (by decide) (by omega)]
    congr 2
    omega

theorem timeOfDay?_chars {time nano : Nat} (htime : time < 86400)
    (h : nano < 1000000000 ∨ time % 60 = 59 ∧ nano < 2000000000) :
    timeOfDay? (time / 3600) (time / 60 % 60) (time % 60 + if 1000000000 ≤ nano then 1 else 0)
      (nano % 1000000000) = some (time, nano) := by
  have hshown : time / 3600 < 24 ∧ time / 60 % 60 < 60 := by omega
  rw [timeOfDay?, if_pos hshown]
  by_cases hleap : 1000000000 ≤ nano
  · have hsixty : time % 60 + 1 = 60 := by omega
    have htotal : time / 3600 * 3600 + time / 60 % 60 * 60 + 59 = time := by omega
    have hnano : nano % 1000000000 + 1000000000 = nano := by omega
    rw [if_pos hleap, hsixty, if_neg (by decide), if_pos rfl, htotal, hnano]
  · have hsecond : time % 60 + 0 < 60 := by omega
    have htotal : time / 3600 * 3600 + time / 60 % 60 * 60 + (time % 60 + 0) = time := by omega
    rw [if_neg hleap, if_pos hsecond, htotal, Nat.mod_eq_of_lt (by omega)]

/-! ### Whole timestamps -/

theorem daysInMonth_le (year : Int) (month : Nat) : daysInMonth year month ≤ 31 := by
  unfold daysInMonth
  split
  · split <;> decide
  · split <;> decide

/-- **An instant is read as it was written.** -/
theorem read?_text {i : Instant} (h : i.Plain) : read? i.text = some i := by
  obtain ⟨second, nano⟩ := i
  obtain ⟨hyear, hnano⟩ := h
  dsimp only at hyear hnano
  have hvalid := Date.valid_ofDays (second / 86400)
  have hdays := Date.toDays_ofDays (second / 86400)
  obtain ⟨date, hdate⟩ : ∃ date, Date.ofDays (second / 86400) = date := ⟨_, rfl⟩
  rw [hdate] at hyear hvalid hdays
  obtain ⟨time, htime⟩ : ∃ time, time = (second % 86400).toNat := ⟨_, rfl⟩
  have hsecond : nano < 1000000000 ∨ time % 60 = 59 ∧ nano < 2000000000 := by omega
  have hclock := timeOfDay?_chars (by omega) hsecond
  have hbounds : 1 ≤ date.month ∧ date.month ≤ 12 ∧ 1 ≤ date.day ∧ date.day ≤ 31 := by
    have := daysInMonth_le date.year date.month
    simp only [Date.valid, Bool.and_eq_true, decide_eq_true_eq] at hvalid
    omega
  have hmoment : date.toDays * 86400 + (time : Int) - 0 = second := by omega
  have hknown : knownYear date.year = true := by
    simp only [knownYear, Bool.and_eq_true, decide_eq_true_eq]
    omega
  have hleap : (if 1000000000 ≤ nano then 1 else 0) ≤ 1 := by split <;> decide
  have hzone : readOffset ['Z'] = some (0, []) := by decide
  rw [read?, text, String.toList_ofList, readChars?, chars]
  simp only [hdate, ← htime, List.append_assoc, List.cons_append]
  refine Option.bind_eq_some_iff.2 ⟨_, readYear_yearChars hyear _, ?_⟩
  refine Option.bind_eq_some_iff.2 ⟨_, readMark_cons (by decide) _, ?_⟩
  refine Option.bind_eq_some_iff.2 ⟨_, readField_padded (by decide) (by omega) _, ?_⟩
  refine Option.bind_eq_some_iff.2 ⟨_, readMark_cons (by decide) _, ?_⟩
  refine Option.bind_eq_some_iff.2 ⟨_, readField_padded (by decide) (by omega) _, ?_⟩
  refine Option.bind_eq_some_iff.2 ⟨_, rfl, ?_⟩
  refine Option.bind_eq_some_iff.2 ⟨_, readField_padded (by decide) (by omega) _, ?_⟩
  refine Option.bind_eq_some_iff.2 ⟨_, readMark_cons (by decide) _, ?_⟩
  refine Option.bind_eq_some_iff.2 ⟨_, readField_padded (by decide) (by omega) _, ?_⟩
  refine Option.bind_eq_some_iff.2 ⟨_, readMark_cons (by decide) _, ?_⟩
  refine Option.bind_eq_some_iff.2 ⟨_, readField_padded (by decide) (by omega) _, ?_⟩
  refine Option.bind_eq_some_iff.2 ⟨_, readFraction_fractionChars (by omega), ?_⟩
  refine Option.bind_eq_some_iff.2 ⟨_, hzone, ?_⟩
  refine Option.bind_eq_some_iff.2 ⟨_, hclock, ?_⟩
  have hmade : (⟨date.year, date.month, date.day⟩ : Date) = date := rfl
  simp only [hmade, hvalid, hknown, hmoment, hdate, Text.skipBlanks, List.dropWhile_nil,
    List.isEmpty_nil, Int.natAbs_zero, Nat.ofNat_pos, decide_true, Bool.and_true, if_true]

/-! ### What is read -/

theorem value_lt {ds : List Char} (h : ∀ c ∈ ds, c.isDigit = true) :
    Numeral.value ds < 10 ^ ds.length := by
  have hfold : ∀ n, ds.foldl (fun n c => 10 * n + (c.toNat - '0'.toNat)) n + 1 ≤
      (n + 1) * 10 ^ ds.length := by
    induction ds with
    | nil => exact fun n => Nat.le_of_eq (Nat.mul_one _).symm
    | cons c ds ih =>
      intro n
      have hdigit : c.toNat - '0'.toNat ≤ 9 := by
        have hc := h c List.mem_cons_self
        simp only [Char.isDigit, Bool.and_eq_true, decide_eq_true_eq, UInt32.le_iff_toNat_le] at hc
        have hhigh : c.toNat ≤ 57 := hc.2
        have hzero : '0'.toNat = 48 := rfl
        omega
      have hrest := ih (fun d hd => h d (List.mem_cons_of_mem _ hd))
        (10 * n + (c.toNat - '0'.toNat))
      rw [List.foldl_cons, List.length_cons, Nat.pow_succ']
      refine hrest.trans ?_
      rw [← Nat.mul_assoc]
      exact Nat.mul_le_mul_right _ (by omega)
  have hzero := hfold 0
  rw [Nat.zero_add, Nat.one_mul] at hzero
  exact hzero

theorem readFraction_lt {nano : Nat} {cs rest : List Char} (h : readFraction cs = some (nano, rest)) :
    nano < 1000000000 := by
  unfold readFraction at h
  split at h
  · rename_i cs
    dsimp only at h
    split at h
    · cases h
    · obtain ⟨rfl, -⟩ := Prod.mk.inj (Option.some.inj h)
      have hkept : ∀ c ∈ (cs.takeWhile Char.isDigit).take 9, c.isDigit = true :=
        fun c hc => List.mem_takeWhile_imp (List.mem_of_mem_take hc)
      have hnine : ((cs.takeWhile Char.isDigit).take 9).length ≤ 9 := List.length_take_le 9 _
      refine (Nat.mul_lt_mul_of_pos_right (value_lt hkept) (Nat.pow_pos (by decide))).trans_eq ?_
      show 10 ^ _ * 10 ^ _ = _
      rw [← Nat.pow_add, Nat.add_sub_of_le hnine]
  · obtain ⟨rfl, -⟩ := Prod.mk.inj (Option.some.inj h)
    decide

theorem nano_of_timeOfDay? {hour minute second nano time shown : Nat} (hnano : nano < 1000000000)
    (h : timeOfDay? hour minute second nano = some (time, shown)) :
    shown < 1000000000 ∨ time % 60 = 59 ∧ shown < 2000000000 := by
  unfold timeOfDay? at h
  split at h
  · split at h
    · obtain ⟨rfl, rfl⟩ := Prod.mk.inj (Option.some.inj h)
      exact .inl hnano
    · split at h
      · obtain ⟨rfl, rfl⟩ := Prod.mk.inj (Option.some.inj h)
        omega
      · cases h
  · cases h

theorem readHoursMinutes_minutes {negative : Bool} {offset : Int} {cs rest : List Char}
    (h : readHoursMinutes negative cs = some (offset, rest)) : offset % 60 = 0 := by
  obtain ⟨⟨hours, cs⟩, -, h⟩ := Option.bind_eq_some_iff.1 h
  obtain ⟨⟨minutes, cs⟩, -, h⟩ := Option.bind_eq_some_iff.1 h
  dsimp only at h
  split at h
  · obtain ⟨rfl, -⟩ := Prod.mk.inj (Option.some.inj h)
    split <;> omega
  · cases h

theorem readOffset_minutes {offset : Int} {cs rest : List Char}
    (h : readOffset cs = some (offset, rest)) : offset % 60 = 0 := by
  unfold readOffset at h
  split at h
  · exact readHoursMinutes_minutes h
  · exact readHoursMinutes_minutes h
  · exact readHoursMinutes_minutes h
  · split at h
    · obtain ⟨rfl, -⟩ := Prod.mk.inj (Option.some.inj h)
      rfl
    · split at h
      · obtain ⟨rfl, -⟩ := Prod.mk.inj (Option.some.inj h)
        rfl
      · cases h
  · cases h

theorem nano_of_read? {s : String} {i : Instant} (h : read? s = some i) :
    i.nano < 1000000000 ∨ i.second % 60 = 59 ∧ i.nano < 2000000000 := by
  obtain ⟨⟨year, cs⟩, -, h⟩ := Option.bind_eq_some_iff.1 h
  obtain ⟨cs, -, h⟩ := Option.bind_eq_some_iff.1 h
  obtain ⟨⟨month, cs⟩, -, h⟩ := Option.bind_eq_some_iff.1 h
  obtain ⟨cs, -, h⟩ := Option.bind_eq_some_iff.1 h
  obtain ⟨⟨day, cs⟩, -, h⟩ := Option.bind_eq_some_iff.1 h
  obtain ⟨cs, -, h⟩ := Option.bind_eq_some_iff.1 h
  obtain ⟨⟨hour, cs⟩, -, h⟩ := Option.bind_eq_some_iff.1 h
  obtain ⟨cs, -, h⟩ := Option.bind_eq_some_iff.1 h
  obtain ⟨⟨minute, cs⟩, -, h⟩ := Option.bind_eq_some_iff.1 h
  obtain ⟨cs, -, h⟩ := Option.bind_eq_some_iff.1 h
  obtain ⟨⟨second, cs⟩, -, h⟩ := Option.bind_eq_some_iff.1 h
  obtain ⟨⟨nano, cs⟩, hfraction, h⟩ := Option.bind_eq_some_iff.1 h
  obtain ⟨⟨offset, cs⟩, hoffset, h⟩ := Option.bind_eq_some_iff.1 h
  obtain ⟨⟨seconds, shown⟩, htime, h⟩ := Option.bind_eq_some_iff.1 h
  have hnano := nano_of_timeOfDay? (readFraction_lt hfraction) htime
  have hminutes := readOffset_minutes hoffset
  dsimp only at h
  split at h
  · split at h
    · obtain rfl := Option.some.inj h
      dsimp only
      omega
    · cases h
  · cases h

end CodeQuality.Instant
