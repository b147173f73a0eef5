import CodeQuality.Proofs.Decimal.Digits

/-!
# The texts of numerals

However a numeral is written, positionally or with an exponent, its text is that of a numeral
(`Numeral.read?_chars`). Of a numeral with too many digits some may be lost; `Numeral.reread` is
the one that is read.
-/

namespace CodeQuality.Numeral

open Decimal

/-- The numeral that is read where `n` was written. -/
def reread (n : Numeral) : Numeral := (read? n.chars).getD n

theorem reread_ofNat {n : Nat} (h : n < UInt64.size) : reread (ofNat n) = ofNat n := by
  rw [reread, read?_ofNat h]
  rfl

theorem exponent?_written (e : Int) :
    exponent? ('e' :: (if e < 0 then '-' else '+') :: digits e.natAbs) = some e := by
  have hvalue := value_digits e.natAbs
  by_cases h : e < 0
  · rw [if_pos h]
    simp only [exponent?, true_or, if_true, digits?_digits, hvalue]
    congr 1
    omega
  · rw [if_neg h]
    simp only [exponent?, true_or, if_true, digits?_digits, hvalue, Bool.false_eq_true, if_false]
    congr 1
    omega

/-! ## What follows the whole digits -/

theorem finish?_isSome_whole (negative : Bool) (ds : List Char) :
    (finish? negative ds []).isSome := rfl

theorem finish?_isSome_fraction (negative : Bool) (ds : List Char) {fraction : List Char}
    (hne : fraction ≠ []) (hall : ∀ c ∈ fraction, c.isDigit = true) :
    (finish? negative ds ('.' :: fraction)).isSome := by
  simp only [finish?, digits?_all hne hall, exponent?, Option.bind_eq_bind, Option.bind_some]
  rfl

theorem finish?_isSome_exponent (negative : Bool) (ds : List Char) (e : Int) :
    (finish? negative ds ('e' :: (if e < 0 then '-' else '+') :: digits e.natAbs)).isSome := by
  show ((exponent? _).bind _).isSome
  rw [exponent?_written]
  rfl

theorem finish?_isSome_fraction_exponent (negative : Bool) (ds : List Char) {fraction : List Char}
    (hne : fraction ≠ []) (hall : ∀ c ∈ fraction, c.isDigit = true) (e : Int) :
    (finish? negative ds
      ('.' :: fraction ++ 'e' :: (if e < 0 then '-' else '+') :: digits e.natAbs)).isSome := by
  have hdigits := digits?_append hne hall
    ('e' :: (if e < 0 then '-' else '+') :: digits e.natAbs) (by simp)
  simp only [List.cons_append, finish?, hdigits, exponent?_written, Option.bind_eq_bind,
    Option.bind_some]
  rfl

/-! ## Whole texts -/

theorem isDigit_of_mem_zero : ∀ c ∈ ['0'], c.isDigit = true := List.all_eq_true.1 rfl

theorem read?_isSome (negative : Bool) (ds rest : List Char) (hne : ds ≠ [])
    (hall : ∀ c ∈ ds, c.isDigit = true) (hzero : ds.head? = some '0' → ds = ['0'])
    (hrest : ∀ c, rest.head? = some c → c.isDigit = false)
    (h : (finish? negative ds rest).isSome) :
    (read? (signChars negative ++ (ds ++ rest))).isSome := by
  have hhead : ¬ (ds.head? = some '0' ∧ ds ≠ ['0']) := fun hc => hc.2 (hzero hc.1)
  rw [read?_signChars negative hne hall rest hrest, if_neg hhead]
  exact h

variable {n : Nat}

theorem read?_isSome_positional (negative : Bool) (hn : n ≠ 0) (point : Int) :
    (read? (signChars negative ++ positional (digits n) point)).isSome := by
  have hall : ∀ c ∈ digits n, c.isDigit = true := fun c hc => isDigit_of_mem_digits hc
  have hhead : (digits n).head? ≠ some '0' := fun h => hn (eq_zero_of_head?_digits h)
  unfold positional
  split
  next =>
    -- all digits stand behind the point
    refine read?_isSome negative ['0'] _ (by simp) isDigit_of_mem_zero (fun _ => rfl) (by simp)
      (finish?_isSome_fraction _ _ (by simp [digits_ne_nil]) ?_)
    intro c hc
    rcases List.mem_append.1 hc with hc | hc
    · rw [List.eq_of_mem_replicate hc]
      rfl
    · exact hall c hc
  next hpoint =>
    dsimp only
    split
    next hlt =>
      -- the point stands between two digits
      have htake : ((digits n).take point.toNat).head? = (digits n).head? :=
        List.head?_take.trans (if_neg (by omega))
      refine read?_isSome negative _ _ ?_ (fun c hc => hall c (List.mem_of_mem_take hc))
        (fun h => absurd (htake ▸ h) hhead) (by simp)
        (finish?_isSome_fraction _ _ ?_ fun c hc => hall c (List.mem_of_mem_drop hc))
      · intro h
        have := congrArg List.length h
        simp only [List.length_take, List.length_nil] at this
        omega
      · intro h
        have := congrArg List.length h
        simp only [List.length_drop, List.length_nil] at this
        omega
    next =>
      -- zeros stand between the digits and the point
      refine read?_isSome negative _ _ (by simp [digits_ne_nil]) ?_ ?_ (by simp)
        (finish?_isSome_fraction _ _ (by simp) isDigit_of_mem_zero)
      · intro c hc
        rcases List.mem_append.1 hc with hc | hc
        · exact hall c hc
        · rw [List.eq_of_mem_replicate hc]
          rfl
      · intro h
        obtain ⟨d, rest, hds⟩ := List.exists_cons_of_ne_nil (digits_ne_nil n)
        rw [hds] at h hhead
        exact absurd h hhead

theorem read?_isSome_scientific (negative : Bool) (hn : n ≠ 0) (point : Int) :
    (read? (signChars negative ++ scientific (digits n) point)).isSome := by
  have hall : ∀ c ∈ digits n, c.isDigit = true := fun c hc => isDigit_of_mem_digits hc
  have hhead : (digits n).head? ≠ some '0' := fun h => hn (eq_zero_of_head?_digits h)
  obtain ⟨d, rest, hds⟩ := List.exists_cons_of_ne_nil (digits_ne_nil n)
  rw [hds] at hall hhead ⊢
  have hone : ∀ c ∈ [d], c.isDigit = true := by simpa using hall d List.mem_cons_self
  have hd : [d].head? = some '0' → [d] = ['0'] := fun h => absurd h hhead
  cases rest with
  | nil =>
    exact read?_isSome negative [d] _ (by simp) hone hd (by simp) (finish?_isSome_exponent _ _ _)
  | cons c rest =>
    exact read?_isSome negative [d] _ (by simp) hone hd (by simp)
      (finish?_isSome_fraction_exponent _ _ (by simp)
        (fun c hc => hall c (List.mem_cons_of_mem _ hc)) (point - 1))

/-- The text of a numeral is the text of a numeral. -/
theorem read?_chars (n : Numeral) : read? n.chars = some n.reread := by
  have hsome : (read? n.chars).isSome := by
    cases n with
    | whole negative digits =>
      have hzero : (Decimal.digits digits).head? = some '0' → Decimal.digits digits = ['0'] := by
        intro h
        rw [eq_zero_of_head?_digits h]
        rfl
      have := read?_isSome negative _ [] (digits_ne_nil digits)
        (fun _ hc => isDigit_of_mem_digits hc) hzero (by simp) (finish?_isSome_whole _ _)
      rwa [List.append_nil] at this
    | decimal negative digits exponent =>
      unfold chars
      dsimp only
      split
      next =>
        exact read?_isSome negative ['0'] _ (by simp) isDigit_of_mem_zero (fun _ => rfl)
          (by simp) (finish?_isSome_fraction _ _ (by simp) isDigit_of_mem_zero)
      next hn =>
        split
        · exact read?_isSome_positional negative hn _
        · exact read?_isSome_scientific negative hn _
  obtain ⟨m, hm⟩ := Option.isSome_iff_exists.1 hsome
  rw [reread, hm]
  rfl

theorem chars_ne_nil (n : Numeral) : n.chars ≠ [] := by
  intro h
  have := read?_chars n
  rw [h] at this
  exact nomatch this

/-! ## The characters of texts -/

/-- What stands in the text of a numeral. -/
def isMark (c : Char) : Bool := c.isDigit || c == '-' || c == '+' || c == '.' || c == 'e'

theorem isMark_of_isDigit {c : Char} (h : c.isDigit = true) : isMark c = true := by simp [isMark, h]

theorem isMark_of_mem_digits {n : Nat} {c : Char} (h : c ∈ digits n) : isMark c = true :=
  isMark_of_isDigit (isDigit_of_mem_digits h)

theorem isMark_of_mem_zeros {n : Nat} {c : Char} (h : c ∈ List.replicate n '0') :
    isMark c = true := by
  rw [List.eq_of_mem_replicate h]
  rfl

theorem isMark_of_mem_positional {n : Nat} {point : Int} {c : Char}
    (h : c ∈ positional (digits n) point) : isMark c = true := by
  unfold positional at h
  split at h
  next =>
    simp only [List.cons_append, List.mem_cons, List.mem_append] at h
    rcases h with rfl | rfl | h | h
    · rfl
    · rfl
    · exact isMark_of_mem_zeros h
    · exact isMark_of_mem_digits h
  next =>
    dsimp only at h
    split at h
    next =>
      simp only [List.mem_append, List.mem_cons] at h
      rcases h with h | rfl | h
      · exact isMark_of_mem_digits (List.mem_of_mem_take h)
      · rfl
      · exact isMark_of_mem_digits (List.mem_of_mem_drop h)
    next =>
      simp only [List.mem_append, List.mem_cons, List.not_mem_nil, or_false] at h
      rcases h with (h | h) | rfl | rfl
      · exact isMark_of_mem_digits h
      · exact isMark_of_mem_zeros h
      · rfl
      · rfl

theorem isMark_of_mem_scientific {n : Nat} {point : Int} {c : Char}
    (h : c ∈ scientific (digits n) point) : isMark c = true := by
  have hall : ∀ c ∈ digits n, isMark c = true := fun c hc => isMark_of_mem_digits hc
  unfold scientific at h
  dsimp only at h
  rcases List.mem_append.1 h with h | h
  · split at h
    next => exact absurd h List.not_mem_nil
    next d hd => exact hall c (by rw [hd]; exact h)
    next d rest _ hd =>
      rw [hd] at hall
      simp only [List.mem_cons] at h
      rcases h with rfl | rfl | h
      · exact hall c List.mem_cons_self
      · rfl
      · exact hall c (List.mem_cons_of_mem _ h)
  · simp only [List.mem_cons] at h
    rcases h with rfl | rfl | h
    · rfl
    · split <;> rfl
    · exact isMark_of_mem_digits h

theorem isMark_of_mem_chars {n : Numeral} {c : Char} (h : c ∈ n.chars) : isMark c = true := by
  have hsign : ∀ negative, c ∈ signChars negative → isMark c = true := by
    intro negative hc
    cases negative with
    | true =>
      rw [List.mem_singleton.1 hc]
      rfl
    | false => exact absurd hc List.not_mem_nil
  cases n with
  | whole negative digits =>
    rcases List.mem_append.1 h with h | h
    · exact hsign negative h
    · exact isMark_of_mem_digits h
  | decimal negative digits exponent =>
    rcases List.mem_append.1 h with h | h
    · exact hsign negative h
    · split at h
      next => exact List.all_eq_true.1 (show ['0', '.', '0'].all isMark = true from rfl) c h
      next =>
        split at h
        · exact isMark_of_mem_positional h
        · exact isMark_of_mem_scientific h

end CodeQuality.Numeral
