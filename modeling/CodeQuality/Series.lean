/-!
# Series

Histories and trends look at the last items of a list, at most a given number of them. Counts are
summed up: as whole numbers (`totalCount`), or in a register that wraps around at a bound
(`wrappedTotal`), which holds the remainder of the sum and is exact if the sum is below the bound.
-/

namespace CodeQuality

variable {τ σ : Type}

/-- The last `n` items of a list, or all if there are fewer. -/
def latest (n : Nat) (xs : List τ) : List τ := xs.drop (xs.length - n)

/-- The sum of counts. -/
def totalCount (ns : List Nat) : Nat := ns.foldr (· + ·) 0

/-- The sum of counts in a register that wraps around at a bound. -/
def wrappedTotal (bound : Nat) (ns : List Nat) : Nat := ns.foldl (fun sum n => (sum + n) % bound) 0

theorem length_latest (n : Nat) (xs : List τ) : (latest n xs).length = min xs.length n := by
  simp only [latest, List.length_drop]
  omega

theorem latest_of_length_le {n : Nat} {xs : List τ} (h : xs.length ≤ n) : latest n xs = xs := by
  simp [latest, Nat.sub_eq_zero_of_le h]

theorem latest_latest {k n : Nat} (h : k ≤ n) (xs : List τ) : latest k (latest n xs) = latest k xs := by
  simp only [latest, List.drop_drop, List.length_drop]
  congr 1
  omega

theorem map_latest (f : τ → σ) (n : Nat) (xs : List τ) :
    (latest n xs).map f = latest n (xs.map f) := by
  simp [latest, List.map_drop]

@[simp] theorem totalCount_nil : totalCount [] = 0 := rfl

@[simp] theorem totalCount_cons (n : Nat) (ns : List Nat) :
    totalCount (n :: ns) = n + totalCount ns := rfl

theorem totalCount_append (ms ns : List Nat) :
    totalCount (ms ++ ns) = totalCount ms + totalCount ns := by
  induction ms with
  | nil => simp
  | cons m ms ih => rw [List.cons_append, totalCount_cons, totalCount_cons, ih, Nat.add_assoc]

theorem totalCount_map_countP (p : σ → Bool) (f : τ → List σ) (xs : List τ) :
    totalCount (xs.map fun x => (f x).countP p) = (xs.flatMap f).countP p :=
  List.countP_flatMap.symm

theorem totalCount_map_length (f : τ → List σ) (xs : List τ) :
    totalCount (xs.map fun x => (f x).length) = (xs.flatMap f).length :=
  List.length_flatMap.symm

theorem totalCount_perm {ms ns : List Nat} (h : ms.Perm ns) : totalCount ms = totalCount ns := by
  induction h with
  | nil => rfl
  | cons n _ ih => rw [totalCount_cons, totalCount_cons, ih]
  | swap m n ns => simp only [totalCount_cons, Nat.add_left_comm]
  | trans _ _ ihms ihns => rw [ihms, ihns]

theorem totalCount_map_mod {bound : Nat} {f g : τ → Nat} {xs : List τ}
    (h : ∀ x ∈ xs, f x % bound = g x % bound) :
    totalCount (xs.map f) % bound = totalCount (xs.map g) % bound := by
  induction xs with
  | nil => rfl
  | cons x xs ih =>
    obtain ⟨hx, hxs⟩ := List.forall_mem_cons.1 h
    rw [List.map_cons, List.map_cons, totalCount_cons, totalCount_cons, Nat.add_mod, hx, ih hxs,
      ← Nat.add_mod]

theorem foldl_wrapped (bound : Nat) (ns : List Nat) (sum : Nat) :
    ns.foldl (fun sum n => (sum + n) % bound) (sum % bound) = (sum + totalCount ns) % bound := by
  induction ns generalizing sum with
  | nil => rfl
  | cons n ns ih =>
    rw [List.foldl_cons, Nat.mod_add_mod, ih, totalCount_cons, Nat.add_assoc]

/-- Nothing is asked of the partial sums: they may wrap around any number of times. -/
theorem wrappedTotal_eq (bound : Nat) (ns : List Nat) :
    wrappedTotal bound ns = totalCount ns % bound := by
  have h := foldl_wrapped bound ns 0
  rwa [Nat.zero_mod, Nat.zero_add] at h

theorem wrappedTotal_of_lt {bound : Nat} {ns : List Nat} (h : totalCount ns < bound) :
    wrappedTotal bound ns = totalCount ns := by
  rw [wrappedTotal_eq, Nat.mod_eq_of_lt h]

end CodeQuality
