import CodeQuality.Time.Calendar

/-!
# Days and dates

Every day number has a date of the calendar, and the date has that day number
(`Date.valid_ofDays`, `Date.toDays_ofDays`). A day is told by the cycles of the calendar that lie
before it: centuries of an era of four centuries, fours of years, and single years, each counted
from 1 March.
-/

namespace CodeQuality.Time

/-- The day `t` of a year behind `c` centuries, `q` fours of years and `y` years of an era. Only a
year that ends with a leap day has a day 365. -/
structure DayOfEra (c q y t : Int) : Prop where
  century : 0 ≤ c ∧ c ≤ 3
  four : 0 ≤ q ∧ q ≤ 24
  year : 0 ≤ y ∧ y ≤ 3
  day : 0 ≤ t ∧ t ≤ 365
  leap : t = 365 → y = 3 ∧ (q < 24 ∨ c = 3)

namespace DayOfEra

theorem exists_eq (n : Int) : ∃ e c q y t, DayOfEra c q y t ∧
    n = 146097 * e + (36524 * c + 1461 * q + 365 * y + t) := by
  obtain ⟨c, hc⟩ : ∃ c, c = min 3 (n % 146097 / 36524) := ⟨_, rfl⟩
  obtain ⟨m, hm⟩ : ∃ m, m = n % 146097 - 36524 * c := ⟨_, rfl⟩
  have hcentury : 0 ≤ m ∧ m ≤ 36524 ∧ (m = 36524 → c = 3) := by omega
  obtain ⟨y, hy⟩ : ∃ y, y = min 3 (m % 1461 / 365) := ⟨_, rfl⟩
  obtain ⟨t, ht⟩ : ∃ t, t = m % 1461 - 365 * y := ⟨_, rfl⟩
  have hyear : 0 ≤ t ∧ t ≤ 365 ∧ (t = 365 → y = 3 ∧ m % 1461 = 1460) := by omega
  refine ⟨n / 146097, c, m / 1461, y, t, ⟨by omega, by omega, by omega, by omega, ?_⟩, by omega⟩
  intro h
  have := hyear.2.2 h
  omega

variable {c q y t n : Int}

theorem number_bounds (h : DayOfEra c q y t) (hn : n = 36524 * c + 1461 * q + 365 * y + t) :
    0 ≤ n ∧ n ≤ 146096 := by
  obtain ⟨hc, hq, hy, ht, hleap⟩ := h
  omega

theorem yearOfEra_eq (h : DayOfEra c q y t) (hn : n = 36524 * c + 1461 * q + 365 * y + t) :
    (n - n / 1460 + n / 36524 - n / 146096) / 365 = 100 * c + 4 * q + y := by
  obtain ⟨hc, hq, hy, ht, hleap⟩ := h
  -- the last day of an era is the only one with four full centuries before it
  have hlast : 1461 * q + 365 * y + t < 36524 ∨ c = 3 ∧ 1461 * q + 365 * y + t = 36524 := by omega
  have hcentury : n / 36524 - n / 146096 = c := by
    obtain hday | ⟨rfl, hday⟩ := hlast
    · have hdiv : n / 36524 = c := by omega
      have hnone : n / 146096 = 0 := by omega
      omega
    · omega
  have hfour : n / 1460 = 25 * c + q + (24 * c + q + 365 * y + t) / 1460 := by omega
  have hrest : (24 * c + q + 365 * y + t) / 1460 = 0 ∧ (y = 3 → t < 365) ∨
      (24 * c + q + 365 * y + t) / 1460 = 1 ∧ y = 3 ∧ 0 < t := by omega
  omega

theorem dayOfYear_eq (h : DayOfEra c q y t) {yearOfEra : Int}
    (hyear : yearOfEra = 100 * c + 4 * q + y) :
    365 * yearOfEra + yearOfEra / 4 - yearOfEra / 100 = 36524 * c + 1461 * q + 365 * y := by
  obtain ⟨hc, hq, hy, -, -⟩ := h
  have hfour : yearOfEra / 4 = 25 * c + q := by omega
  have hcentury : yearOfEra / 100 = c := by omega
  omega

end DayOfEra

namespace Date

/-- The date `t` days after 1 March of a year. -/
def ofYearDay (year t : Int) : Date :=
  let month := (5 * t + 2) / 153
  let day := t - (153 * month + 2) / 5 + 1
  if month < 10 then ⟨year, (month + 3).toNat, day.toNat⟩
  else ⟨year + 1, (month - 9).toNat, day.toNat⟩

variable {c q y t : Int}

theorem ofDays_eq (h : DayOfEra c q y t) (e : Int) :
    ofDays (146097 * e + (36524 * c + 1461 * q + 365 * y + t) - epoch) =
      ofYearDay (100 * c + 4 * q + y + 400 * e) t := by
  obtain ⟨n, hn⟩ : ∃ n, n = 36524 * c + 1461 * q + 365 * y + t := ⟨_, rfl⟩
  have hbounds := h.number_bounds hn
  have hshifted : 146097 * e + n - epoch + epoch = 146097 * e + n := by omega
  have hera : (146097 * e + n) / 146097 = e := by omega
  have hday : (146097 * e + n) % 146097 = n := by omega
  have hyear := h.yearOfEra_eq hn
  have hstart := h.dayOfYear_eq rfl
  have ht : n - (365 * (100 * c + 4 * q + y) + (100 * c + 4 * q + y) / 4 -
      (100 * c + 4 * q + y) / 100) = t := by omega
  unfold ofDays
  rw [← hn]
  simp only [hshifted, hera, hday, hyear, ht]
  rfl

theorem toDays_ofYearDay {year : Int} (ht : 0 ≤ t ∧ t ≤ 365) :
    (ofYearDay year t).toDays = 365 * year + year / 4 - year / 100 + year / 400 + t - epoch := by
  obtain ⟨m, hm⟩ : ∃ m, m = (5 * t + 2) / 153 := ⟨_, rfl⟩
  unfold ofYearDay toDays
  dsimp only
  rw [← hm]
  split
  · have hmonth : ¬ (m + 3).toNat ≤ 2 := by omega
    have hshift : (((m + 3).toNat + 9) % 12 : Nat) = m := by omega
    simp only [hmonth, if_false, hshift]
    omega
  · have hmonth : (m - 9).toNat ≤ 2 := by omega
    have hshift : (((m - 9).toNat + 9) % 12 : Nat) = m := by omega
    simp only [hmonth, if_true, hshift]
    omega

/-- The day of a date is the day it was found for. -/
theorem toDays_ofDays (days : Int) : (ofDays days).toDays = days := by
  obtain ⟨e, c, q, y, t, h, hdays⟩ := DayOfEra.exists_eq (days + epoch)
  have hsplit : days = 146097 * e + (36524 * c + 1461 * q + 365 * y + t) - epoch := by omega
  rw [hsplit, ofDays_eq h, toDays_ofYearDay h.day]
  obtain ⟨hc, hq, hy, -, -⟩ := h
  omega

theorem isLeap_iff (year : Int) :
    isLeap year = true ↔ year % 4 = 0 ∧ (year % 100 ≠ 0 ∨ year % 400 = 0) := by
  simp [isLeap]

theorem valid_ofYearDay {year : Int} (ht : 0 ≤ t ∧ t ≤ 365)
    (hleap : t = 365 → isLeap (year + 1) = true) : (ofYearDay year t).valid = true := by
  obtain ⟨m, hm⟩ : ∃ m, m = (5 * t + 2) / 153 := ⟨_, rfl⟩
  have hmonths : m = 0 ∨ m = 1 ∨ m = 2 ∨ m = 3 ∨ m = 4 ∨ m = 5 ∨ m = 6 ∨ m = 7 ∨ m = 8 ∨ m = 9 ∨
      m = 10 ∨ m = 11 := by omega
  unfold ofYearDay valid daysInMonth
  dsimp only
  rw [← hm]
  rcases hmonths with h | h | h | h | h | h | h | h | h | h | h | h <;>
    simp only [h, Bool.and_eq_true, decide_eq_true_eq, Int.reduceLT, Int.reduceAdd, Int.reduceSub,
      Int.reduceToNat, Int.reduceMul, Int.reduceDiv, if_true, if_false, Nat.reduceEqDiff,
      Nat.reduceLeDiff, true_and, and_true, false_or, or_false]
  case inr.inr.inr.inr.inr.inr.inr.inr.inr.inr.inr =>
    -- February
    split
    next => omega
    next hshort =>
      have : t ≠ 365 := fun h => hshort (hleap h)
      omega
  all_goals omega

/-- The date of a day is in the calendar. -/
theorem valid_ofDays (days : Int) : (ofDays days).valid = true := by
  obtain ⟨e, c, q, y, t, h, hdays⟩ := DayOfEra.exists_eq (days + epoch)
  have hsplit : days = 146097 * e + (36524 * c + 1461 * q + 365 * y + t) - epoch := by omega
  rw [hsplit, ofDays_eq h]
  refine valid_ofYearDay h.day fun hlast => ?_
  obtain ⟨rfl, hfour⟩ := h.leap hlast
  obtain ⟨hc, hq, -, -, -⟩ := h
  rw [isLeap_iff]
  omega

end Date

end CodeQuality.Time
