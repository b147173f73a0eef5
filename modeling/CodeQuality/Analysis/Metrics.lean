/-!
# Metrics

The metrics of a result: numbers by name, in the order of the names by code points. A name has one
number; setting it again replaces the number. The order is part of the type, so that two maps with
the same numbers are equal.
-/

namespace CodeQuality

/-- Numbers by name. -/
@[ext]
structure Metrics (α : Type) where
  entries : List (String × α)
  /-- The names ascend. -/
  sorted : entries.Pairwise fun a b => a.1 < b.1

namespace Metrics

variable {α : Type}

/-- No metrics. -/
def empty : Metrics α := ⟨[], .nil⟩

/-- Entries with the number of a name set, in order. -/
def setEntry (key : String) (value : α) : List (String × α) → List (String × α)
  | [] => [(key, value)]
  | entry :: rest =>
    if key < entry.1 then (key, value) :: entry :: rest
    else if entry.1 < key then entry :: setEntry key value rest
    else (key, value) :: rest

theorem mem_setEntry {key : String} {value : α} {entry : String × α} :
    {entries : List (String × α)} → entry ∈ setEntry key value entries →
      entry = (key, value) ∨ entry ∈ entries
  | [], h => by simpa [setEntry] using h
  | first :: rest, h => by
    simp only [setEntry] at h
    split at h
    · simpa using h
    · split at h
      · rcases List.mem_cons.1 h with h | h
        · exact .inr (by simp [h])
        · exact (mem_setEntry h).imp id (List.mem_cons_of_mem _)
      · rcases List.mem_cons.1 h with h | h
        · exact .inl h
        · exact .inr (List.mem_cons_of_mem _ h)

theorem setEntry_sorted (key : String) (value : α) :
    {entries : List (String × α)} → entries.Pairwise (fun a b => a.1 < b.1) →
      (setEntry key value entries).Pairwise fun a b => a.1 < b.1
  | [], _ => by simp [setEntry]
  | first :: rest, h => by
    have hfirst := (List.pairwise_cons.1 h).1
    have hrest := (List.pairwise_cons.1 h).2
    simp only [setEntry]
    split
    · rename_i hlt
      refine List.pairwise_cons.2 ⟨fun e he => ?_, h⟩
      rcases List.mem_cons.1 he with rfl | he
      · exact hlt
      · exact String.lt_trans hlt (hfirst e he)
    · split
      · rename_i hlt
        refine List.pairwise_cons.2 ⟨fun e he => ?_, setEntry_sorted key value hrest⟩
        rcases mem_setEntry he with rfl | he
        · exact hlt
        · exact hfirst e he
      · rename_i hge hle
        have heq : first.1 = key := String.le_antisymm (String.not_lt.1 hge) (String.not_lt.1 hle)
        exact List.pairwise_cons.2 ⟨fun e he => heq ▸ hfirst e he, hrest⟩

/-- The metrics with the number of a name set. -/
def set (metrics : Metrics α) (key : String) (value : α) : Metrics α :=
  ⟨setEntry key value metrics.entries, setEntry_sorted key value metrics.sorted⟩

/-- The number of a name. -/
def get? (metrics : Metrics α) (key : String) : Option α := metrics.entries.lookup key

theorem lookup_cons_eq (name : String) (entry : String × α) (entries : List (String × α)) :
    (entry :: entries).lookup name = if name = entry.1 then some entry.2 else entries.lookup name := by
  rw [List.lookup_cons]
  by_cases h : name = entry.1
  · rw [if_pos h, beq_iff_eq.2 h]
  · rw [if_neg h, beq_eq_false_iff_ne.2 h]

theorem lookup_setEntry (key name : String) (value : α) (entries : List (String × α)) :
    (setEntry key value entries).lookup name =
      if name = key then some value else entries.lookup name := by
  induction entries with
  | nil => exact lookup_cons_eq ..
  | cons first rest ih =>
    rw [setEntry]
    split
    · exact lookup_cons_eq ..
    · split
      · rename_i hlt
        have hne : key ≠ first.1 := fun h => String.lt_irrefl _ (h ▸ hlt)
        rw [lookup_cons_eq, ih, lookup_cons_eq]
        by_cases h : name = key <;> simp [h, hne]
      · rename_i hge hle
        have heq : key = first.1 := String.le_antisymm (String.not_lt.1 hle) (String.not_lt.1 hge)
        rw [lookup_cons_eq, lookup_cons_eq, heq]
        by_cases h : name = first.1 <;> simp [h]

theorem get?_set (metrics : Metrics α) (key name : String) (value : α) :
    (metrics.set key value).get? name = if name = key then some value else metrics.get? name :=
  lookup_setEntry ..

theorem mem_of_get? {metrics : Metrics α} {key : String} {value : α}
    (h : metrics.get? key = some value) : (key, value) ∈ metrics.entries := by
  obtain ⟨before, after, hentries, -⟩ := List.lookup_eq_some_iff.1 h
  rw [hentries]
  simp

/-- Whether a name has a number. -/
def has (metrics : Metrics α) (key : String) : Bool := (metrics.get? key).isSome

theorem has_set (metrics : Metrics α) (key name : String) (value : α) :
    (metrics.set key value).has name = (decide (name = key) || metrics.has name) := by
  rw [has, get?_set]
  by_cases h : name = key <;> simp [h, has]

/-- The metrics of a list of settings; of settings of one name the last one counts. -/
def ofList (entries : List (String × α)) : Metrics α :=
  entries.foldl (fun metrics entry => metrics.set entry.1 entry.2) empty

theorem get?_foldl_set (entries : List (String × α)) (metrics : Metrics α) (key : String) :
    (entries.foldl (fun metrics entry => metrics.set entry.1 entry.2) metrics).get? key =
      (entries.reverse.lookup key).or (metrics.get? key) := by
  induction entries generalizing metrics with
  | nil => rfl
  | cons entry entries ih =>
    rw [List.foldl_cons, ih, get?_set, List.reverse_cons, List.lookup_append, lookup_cons_eq,
      List.lookup_nil, Option.or_assoc]
    split <;> rfl

theorem get?_ofList (entries : List (String × α)) (key : String) :
    (ofList entries).get? key = entries.reverse.lookup key := by
  rw [ofList, get?_foldl_set]
  exact Option.or_none

theorem has_ofList (entries : List (String × α)) (key : String) :
    (ofList entries).has key = true ↔ key ∈ entries.map Prod.fst := by
  rw [has, get?_ofList]
  simp [List.lookup_isSome_iff]

end Metrics

end CodeQuality
