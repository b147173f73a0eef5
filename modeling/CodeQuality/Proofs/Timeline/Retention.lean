import CodeQuality.Timeline

/-!
# Timelines keep the newest arrivals

`Timeline.entries_ofList`: a timeline holds the newest entries of the stable sort of all that ever
arrived, although it drops the oldest entry at every arrival and never sees the whole sequence.

A chronological list is determined by what it holds at each instant (`Chronological.ext`), and both
placing an entry and stable sorting only add to what a list holds at an instant, at its end. So
placing one arrival after the other is stable sorting (`place_inOrder`). Dropping early loses nothing:
what an arrival pushes out of the newest entries is what it would push out of all entries
(`newest_place_newest`), because an arrival from before the newest entries goes in front of them.
-/

namespace CodeQuality

open Timed

variable {τ σ : Type} [Timed τ] [Timed σ]

/-! ## Chronological lists -/

/-- What a list holds at an instant. -/
def atInstant (t : Instant) (xs : List τ) : List τ := xs.filter fun x => instant x = t

theorem atInstant_append (t : Instant) (xs ys : List τ) :
    atInstant t (xs ++ ys) = atInstant t xs ++ atInstant t ys := List.filter_append ..

theorem mem_of_atInstant_eq {xs ys : List τ} {x : τ}
    (h : ∀ t, atInstant t xs = atInstant t ys) (hx : x ∈ xs) : x ∈ ys := by
  have hmem : x ∈ atInstant (instant x) ys := by
    rw [← h]
    exact List.mem_filter.2 ⟨hx, by simp⟩
  exact (List.mem_filter.1 hmem).1

theorem Chronological.head_le {x y : τ} {xs : List τ} (h : Chronological (x :: xs))
    (hy : y ∈ x :: xs) : instant x ≤ instant y := by
  rcases List.mem_cons.1 hy with rfl | hy
  · exact Instant.le_refl _
  · exact (List.pairwise_cons.1 h).1 y hy

/-- A chronological list is determined by what it holds at each instant. -/
theorem Chronological.ext {xs ys : List τ} (hxs : Chronological xs) (hys : Chronological ys)
    (h : ∀ t, atInstant t xs = atInstant t ys) : xs = ys := by
  induction xs generalizing ys with
  | nil =>
    cases ys with
    | nil => rfl
    | cons y ys => exact absurd (mem_of_atInstant_eq (fun t => (h t).symm) List.mem_cons_self) (by simp)
  | cons x xs ih =>
    cases ys with
    | nil => exact absurd (mem_of_atInstant_eq h List.mem_cons_self) (by simp)
    | cons y ys =>
      -- each head is an entry of the other list, so that neither is later
      have hxy : instant x ≤ instant y :=
        hxs.head_le (mem_of_atInstant_eq (fun t => (h t).symm) List.mem_cons_self)
      have hyx : instant y ≤ instant x := hys.head_le (mem_of_atInstant_eq h List.mem_cons_self)
      have hinst : instant y = instant x := Instant.le_antisymm hyx hxy
      have hhead := h (instant x)
      simp only [atInstant, List.filter_cons, decide_true, if_true, hinst, List.cons.injEq] at hhead
      obtain ⟨rfl, -⟩ := hhead
      refine congrArg (x :: ·) (ih (List.pairwise_cons.1 hxs).2 (List.pairwise_cons.1 hys).2 fun t => ?_)
      have ht := h t
      simp only [atInstant, List.filter_cons] at ht
      split at ht
      · exact (List.cons.inj ht).2
      · exact ht

/-! ## The stable sort -/

/-- Entries in the order of their instants; those of one instant keep their order. -/
def inOrder (xs : List τ) : List τ := xs.mergeSort fun x y => instant x ≤ instant y

theorem notLater_trans (x y z : τ) (hxy : decide (instant x ≤ instant y) = true)
    (hyz : decide (instant y ≤ instant z) = true) : decide (instant x ≤ instant z) = true :=
  decide_eq_true (Instant.le_trans (of_decide_eq_true hxy) (of_decide_eq_true hyz))

theorem notLater_total (x y : τ) :
    (decide (instant x ≤ instant y) || decide (instant y ≤ instant x)) = true := by
  simpa using Instant.le_total (instant x) (instant y)

theorem inOrder_chronological (xs : List τ) : Chronological (inOrder xs) :=
  (List.pairwise_mergeSort notLater_trans notLater_total xs).imp fun h => of_decide_eq_true h

theorem inOrder_perm (xs : List τ) : (inOrder xs).Perm xs := List.mergeSort_perm ..

theorem inOrder_eq_self {xs : List τ} (h : Chronological xs) : inOrder xs = xs :=
  List.mergeSort_of_pairwise (h.imp fun h => decide_eq_true h)

theorem atInstant_inOrder (t : Instant) (xs : List τ) : atInstant t (inOrder xs) = atInstant t xs := by
  have hat : ∀ x ∈ atInstant t xs, instant x = t := fun x hx =>
    of_decide_eq_true (List.mem_filter.1 hx).2
  have hchron : (atInstant t xs).Pairwise fun x y : τ => decide (instant x ≤ instant y) := by
    refine List.pairwise_of_forall_mem_list fun x hx y hy => ?_
    rw [hat x hx, hat y hy]
    exact decide_eq_true (Instant.le_refl t)
  have hsub : (atInstant t xs).Sublist (inOrder xs) :=
    List.sublist_mergeSort notLater_trans notLater_total hchron List.filter_sublist
  have hfilter : (atInstant t xs).Sublist (atInstant t (inOrder xs)) := by
    have h := hsub.filter fun x => decide (instant x = t)
    rwa [List.filter_eq_self.2 fun x hx => decide_eq_true (hat x hx)] at h
  exact (hfilter.eq_of_length ((inOrder_perm xs).filter _).length_eq.symm).symm

theorem map_inOrder (f : τ → σ) (hf : ∀ x, instant (f x) = instant x) (xs : List τ) :
    (inOrder xs).map f = inOrder (xs.map f) :=
  List.map_mergeSort fun x _ y _ => by rw [hf, hf]

/-! ## Arrivals in another order -/

theorem atInstant_perm {xs ys : List τ} (h : xs.Perm ys) (hdistinct : (xs.map instant).Nodup)
    (t : Instant) : atInstant t xs = atInstant t ys := by
  have hperm : (atInstant t xs).Perm (atInstant t ys) := h.filter _
  cases hxs : atInstant t xs with
  | nil =>
    rw [hxs] at hperm
    exact hperm.nil_eq
  | cons x rest =>
    cases rest with
    | nil =>
      rw [hxs] at hperm
      exact hperm.singleton_eq
    | cons y rest =>
      -- two entries at `t` would repeat it among the instants
      have hat : ∀ z ∈ atInstant t xs, instant z = t := fun z hz =>
        of_decide_eq_true (List.mem_filter.1 hz).2
      have hsub : ((atInstant t xs).map instant).Nodup :=
        (List.filter_sublist.map instant).nodup hdistinct
      rw [hxs] at hat hsub
      have hxy : instant x = instant y := (hat x (by simp)).trans (hat y (by simp)).symm
      simp [hxy] at hsub

theorem inOrder_append_perm (earlier : List τ) {xs ys : List τ} (h : xs.Perm ys)
    (hdistinct : (xs.map instant).Nodup) : inOrder (earlier ++ xs) = inOrder (earlier ++ ys) := by
  refine (inOrder_chronological _).ext (inOrder_chronological _) fun t => ?_
  rw [atInstant_inOrder, atInstant_inOrder, atInstant_append, atInstant_append,
    atInstant_perm h hdistinct t]

namespace Timeline

/-! ## Placing an entry -/

theorem place_append_of_le {x : τ} {ys : List τ} (h : ∀ y ∈ ys, instant y ≤ instant x) (zs : List τ) :
    place x (ys ++ zs) = ys ++ place x zs := by
  induction ys with
  | nil => rfl
  | cons y ys ih =>
    simp only [List.cons_append, place, if_pos (h y List.mem_cons_self)]
    rw [ih fun z hz => h z (List.mem_cons_of_mem _ hz)]

theorem place_append_of_not_le {x y : τ} {ys : List τ} (hy : y ∈ ys) (h : ¬ instant y ≤ instant x)
    (zs : List τ) : place x (ys ++ zs) = place x ys ++ zs := by
  induction ys with
  | nil => exact absurd hy List.not_mem_nil
  | cons z ys ih =>
    simp only [List.cons_append, place]
    split
    · rename_i hz
      rcases List.mem_cons.1 hy with rfl | hy
      · exact absurd hz h
      · rw [ih hy, List.cons_append]
    · rfl

theorem place_eq_append (x : τ) (ys : List τ) :
    place x ys = ys.takeWhile (fun y => instant y ≤ instant x) ++
      x :: ys.dropWhile (fun y => instant y ≤ instant x) := by
  induction ys with
  | nil => rfl
  | cons y ys ih =>
    by_cases h : instant y ≤ instant x
    · simp [place, h, ih]
    · simp [place, h]

theorem map_place (f : τ → σ) (hf : ∀ x, instant (f x) = instant x) (x : τ) (ys : List τ) :
    (place x ys).map f = place (f x) (ys.map f) := by
  induction ys with
  | nil => rfl
  | cons y ys ih =>
    simp only [place, List.map_cons, hf]
    split
    · rw [List.map_cons, ih]
    · rfl

theorem later_of_mem_dropWhile {x y : τ} {ys : List τ} (hys : Chronological ys)
    (hy : y ∈ ys.dropWhile fun y => instant y ≤ instant x) : ¬ instant y ≤ instant x := by
  induction ys with
  | nil => exact absurd hy List.not_mem_nil
  | cons z ys ih =>
    by_cases hz : instant z ≤ instant x
    · rw [List.dropWhile_cons_of_pos (by simpa using hz)] at hy
      exact ih (List.pairwise_cons.1 hys).2 hy
    · rw [List.dropWhile_cons_of_neg (by simpa using hz)] at hy
      exact fun hyx => hz (Instant.le_trans (hys.head_le hy) hyx)

theorem atInstant_place (t : Instant) (x : τ) {ys : List τ} (hys : Chronological ys) :
    atInstant t (place x ys) = atInstant t (ys ++ [x]) := by
  have hsplit : atInstant t ys = atInstant t (ys.takeWhile fun y => instant y ≤ instant x) ++
      atInstant t (ys.dropWhile fun y => instant y ≤ instant x) := by
    rw [← atInstant_append, List.takeWhile_append_dropWhile]
  rw [place_eq_append, atInstant_append, atInstant_append, hsplit, List.append_assoc]
  congr 1
  by_cases hx : instant x = t
  · have hlater : atInstant t (ys.dropWhile fun y => instant y ≤ instant x) = [] := by
      refine List.filter_eq_nil_iff.2 fun y hy => ?_
      have hyx := later_of_mem_dropWhile hys hy
      simp only [decide_eq_true_eq]
      rintro rfl
      exact hyx (hx ▸ Instant.le_refl _)
    rw [hlater]
    simpa [atInstant, List.filter_cons, hx] using hlater
  · simp [atInstant, hx]

/-- Placing a further arrival among sorted ones is sorting them all. -/
theorem place_inOrder (x : τ) (xs : List τ) : place x (inOrder xs) = inOrder (xs ++ [x]) := by
  refine (place_chronological x (inOrder_chronological xs)).ext (inOrder_chronological _) fun t => ?_
  rw [atInstant_place t x (inOrder_chronological xs), atInstant_append, atInstant_inOrder,
    atInstant_inOrder, atInstant_append]

/-! ## Dropping early -/

omit [Timed τ] in
theorem latest_append_of_le {n : Nat} {ys : List τ} (h : n ≤ ys.length) (xs : List τ) :
    latest n (xs ++ ys) = latest n ys := by
  rw [latest, latest, List.drop_append, List.drop_eq_nil_of_le (by rw [List.length_append]; omega),
    List.nil_append, List.length_append]
  congr 1
  omega

theorem place_of_later {x : τ} {ys : List τ} (h : ∀ y ∈ ys, ¬ instant y ≤ instant x) :
    place x ys = x :: ys := by
  cases ys with
  | nil => rfl
  | cons y ys => rw [place, if_neg (h y List.mem_cons_self)]

/-- What an arrival pushes out of the newest entries it would push out of all entries. -/
theorem newest_place_newest (capacity : Nat) (x : τ) {ys : List τ} (hys : Chronological ys) :
    newest capacity (place x (newest capacity ys)) = newest capacity (place x ys) := by
  by_cases hlen : ys.length ≤ max capacity 1
  · have hall : newest capacity ys = ys := latest_of_length_le hlen
    rw [hall]
  obtain ⟨old, kept, hsplit, hkept, hnewest⟩ : ∃ old kept, ys = old ++ kept ∧
      kept.length = max capacity 1 ∧ newest capacity ys = kept :=
    ⟨ys.take (ys.length - max capacity 1), ys.drop (ys.length - max capacity 1),
      (List.take_append_drop ..).symm, by rw [List.length_drop]; omega, rfl⟩
  rw [hnewest, hsplit]
  by_cases hold : ∀ y ∈ old, instant y ≤ instant x
  · -- the arrival takes its place among the newest entries
    rw [place_append_of_le hold, newest, newest,
      latest_append_of_le (by rw [length_place]; omega)]
  · -- the arrival is older than all of the newest entries and does not stay
    obtain ⟨y, hy, hyx⟩ : ∃ y ∈ old, ¬ instant y ≤ instant x := by simpa using hold
    have hlater : ∀ z ∈ kept, ¬ instant z ≤ instant x := by
      intro z hz hzx
      rw [hsplit] at hys
      exact hyx (Instant.le_trans ((List.pairwise_append.1 hys).2.2 y hy z hz) hzx)
    have hroom : max capacity 1 ≤ kept.length := Nat.le_of_eq hkept.symm
    have hfront : newest capacity (x :: kept) = newest capacity kept := latest_append_of_le hroom [x]
    rw [place_append_of_not_le hy hyx, place_of_later hlater, hfront]
    exact (latest_append_of_le hroom _).symm

/-! ## Timelines -/

variable {capacity : Nat} {t : Timeline τ capacity} {arrived : List τ}

/-- A timeline holds the newest of what arrived, in the order of the instants. -/
def Retains (t : Timeline τ capacity) (arrived : List τ) : Prop :=
  t.entries = newest capacity (inOrder arrived)

theorem empty_retains : (empty : Timeline τ capacity).Retains [] := by
  simp [Retains, empty, inOrder, newest, latest]

theorem Retains.insert (h : t.Retains arrived) (x : τ) : (t.insert x).Retains (arrived ++ [x]) := by
  show newest capacity (place x t.entries) = newest capacity (inOrder (arrived ++ [x]))
  rw [h, newest_place_newest capacity x (inOrder_chronological arrived), place_inOrder]

theorem retains_entries (t : Timeline τ capacity) : t.Retains t.entries := by
  rw [Retains, inOrder_eq_self t.sorted]
  exact (latest_of_length_le t.bounded).symm

theorem Retains.foldl_insert (h : t.Retains arrived) (xs : List τ) :
    (xs.foldl Timeline.insert t).Retains (arrived ++ xs) := by
  induction xs generalizing t arrived with
  | nil => rwa [List.append_nil]
  | cons x xs ih =>
    rw [List.foldl_cons, List.append_cons]
    exact ih (h.insert x)

theorem Retains.entries_eq (h : t.Retains arrived) :
    t.entries = latest (min arrived.length (max capacity 1)) (inOrder arrived) := by
  rw [h, newest, latest, latest, (inOrder_perm arrived).length_eq]
  congr 1
  omega

/-- **A timeline holds the newest of all arrivals in the order of their instants.** -/
theorem entries_ofList (capacity : Nat) (xs : List τ) :
    (ofList capacity xs).entries = newest capacity (inOrder xs) := empty_retains.foldl_insert xs

end Timeline

end CodeQuality
