import CodeQuality.Decimal.Numeral
import Mathlib.Data.List.TakeDrop
import Mathlib.Data.List.TakeWhile

/-!
# Digits of counts

The digits of a count are digits, lead with no needless zero and have the count as their value, so
that a count is read as it was written (`Numeral.read?_ofNat`), as long as it fits in 64 bits.
-/

namespace CodeQuality

namespace Decimal

theorem isDigit_of_mem_digits {n : Nat} {c : Char} (h : c ∈ digits n) : c.isDigit = true :=
  Nat.isDigit_of_mem_toDigits (by decide) (by decide) h

theorem digits_ne_nil (n : Nat) : digits n ≠ [] := Nat.toDigits_ne_nil

theorem eq_zero_of_head?_digits {n : Nat} (h : (digits n).head? = some '0') : n = 0 := by
  induction n using Nat.strongRecOn with
  | ind n ih =>
    unfold digits at h ih
    rw [Nat.toDigits_eq_if (by decide)] at h
    split at h
    next hlt =>
      have hzero : ∀ d < 10, Nat.digitChar d = '0' → d = 0 := by decide
      exact hzero n hlt (by simpa using h)
    next hle =>
      obtain ⟨c, hc⟩ := Option.isSome_iff_exists.1 (List.isSome_head?.2 (Nat.toDigits_ne_nil (n := n / 10) (b := 10)))
      rw [List.head?_append, hc] at h
      have := ih (n / 10) (by omega) (hc.trans h)
      omega

end Decimal

namespace Numeral

open Decimal

theorem value_digits (n : Nat) : value (digits n) = n := Nat.ofDigitChars_ten_toDigits

theorem le_foldl_digits (cs : List Char) (n : Nat) :
    n ≤ cs.foldl (fun n c => 10 * n + (c.toNat - '0'.toNat)) n := by
  induction cs generalizing n with
  | nil => exact Nat.le_refl n
  | cons c cs ih =>
    have := ih (10 * n + (c.toNat - '0'.toNat))
    rw [List.foldl_cons]
    omega

theorem extend_eq {cs : List Char} {n : Nat}
    (h : cs.foldl (fun n c => 10 * n + (c.toNat - '0'.toNat)) n < UInt64.size) :
    extend n cs = (cs.foldl (fun n c => 10 * n + (c.toNat - '0'.toNat)) n, []) := by
  induction cs generalizing n with
  | nil => rfl
  | cons c cs ih =>
    rw [List.foldl_cons] at h ⊢
    have hnext := Nat.lt_of_le_of_lt (le_foldl_digits cs _) h
    rw [extend]
    simp only [hnext, if_true]
    exact ih h

theorem digits?_append {ds : List Char} (hne : ds ≠ []) (hall : ∀ c ∈ ds, c.isDigit = true)
    (rest : List Char) (hrest : ∀ c, rest.head? = some c → c.isDigit = false) :
    digits? (ds ++ rest) = some (ds, rest) := by
  have htake : rest.takeWhile Char.isDigit = [] := by
    cases rest with
    | nil => rfl
    | cons c cs => simp [hrest c rfl]
  have hdrop : rest.dropWhile Char.isDigit = rest := by
    cases rest with
    | nil => rfl
    | cons c cs => simp [hrest c rfl]
  unfold digits?
  rw [List.span_eq_takeWhile_dropWhile, List.takeWhile_append_of_pos hall,
    List.dropWhile_append_of_pos hall, htake, hdrop, List.append_nil]
  cases ds with
  | nil => exact absurd rfl hne
  | cons d ds => rfl

theorem digits?_all {ds : List Char} (hne : ds ≠ []) (hall : ∀ c ∈ ds, c.isDigit = true) :
    digits? ds = some (ds, []) := by
  have := digits?_append hne hall [] (by simp)
  rwa [List.append_nil] at this

theorem digits?_digits (n : Nat) : digits? (digits n) = some (digits n, []) :=
  digits?_all (digits_ne_nil n) fun _ hc => isDigit_of_mem_digits hc

theorem read?_signChars (negative : Bool) {ds : List Char} (hne : ds ≠ [])
    (hall : ∀ c ∈ ds, c.isDigit = true) (rest : List Char)
    (hrest : ∀ c, rest.head? = some c → c.isDigit = false) :
    read? (signChars negative ++ (ds ++ rest)) =
      if ds.head? = some '0' ∧ ds ≠ ['0'] then none else finish? negative ds rest := by
  have hdigits := digits?_append hne hall rest hrest
  obtain ⟨d, ds, rfl⟩ := List.exists_cons_of_ne_nil hne
  have hd : d ≠ '-' := by
    rintro rfl
    exact absurd (hall '-' List.mem_cons_self) (by decide)
  cases negative with
  | true =>
    show (digits? (d :: ds ++ rest)).bind _ = _
    rw [hdigits]
    rfl
  | false =>
    unfold read?
    simp only [signChars, Bool.false_eq_true, if_false, List.nil_append]
    split
    next heq => exact absurd (List.cons.inj heq).1 hd
    next => simp only [hdigits, Option.bind_eq_bind, Option.bind_some]

/-- A count is read as it was written. -/
theorem read?_ofNat {n : Nat} (h : n < UInt64.size) : read? (ofNat n).chars = some (ofNat n) := by
  have hextend : extend 0 (digits n) = (n, []) := by
    have hvalue := value_digits n
    unfold value at hvalue
    rw [extend_eq (by rwa [hvalue]), hvalue]
  have hhead : ¬ ((digits n).head? = some '0' ∧ digits n ≠ ['0']) := by
    rintro ⟨hzero, hne⟩
    rw [eq_zero_of_head?_digits hzero] at hne
    exact hne rfl
  have hread := read?_signChars false (digits_ne_nil n)
    (fun _ hc => isDigit_of_mem_digits hc) [] (by simp)
  rw [List.append_nil, if_neg hhead] at hread
  show read? (signChars false ++ digits n) = _
  rw [hread, finish?, hextend]
  rfl

end Numeral

end CodeQuality
