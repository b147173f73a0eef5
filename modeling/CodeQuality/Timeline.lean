import CodeQuality.Series
import CodeQuality.Time.Instant

/-!
# Timelines

A timeline holds the newest of the entries that were put into it, in the order of their instants.
Entries of one instant stand in the order of their arrival. Order and bound are part of the type.

* `Timeline.insert` puts an entry behind all that are not later and then drops the oldest ones that
  exceed the capacity, which is at least one;
* `Timeline.ofList` puts in one entry after the other.
-/

namespace CodeQuality

/-- Entries that belong to an instant. -/
class Timed (τ : Type) where
  /-- The instant of an entry. -/
  instant : τ → Instant

open Timed

/-- Entries whose instants do not go back. -/
def Chronological {τ : Type} [Timed τ] (xs : List τ) : Prop :=
  xs.Pairwise fun a b => instant a ≤ instant b

/-- The newest entries, in order. -/
structure Timeline (τ : Type) [Timed τ] (capacity : Nat) where
  entries : List τ
  /-- The instants do not go back. -/
  sorted : Chronological entries
  /-- There are at most `capacity` entries, or one. -/
  bounded : entries.length ≤ max capacity 1

namespace Timeline

variable {τ : Type} [Timed τ]

/-! ## Placing an entry -/

/-- Entries with a further one behind all that are not later. -/
def place (x : τ) : List τ → List τ
  | [] => [x]
  | y :: ys => if instant y ≤ instant x then y :: place x ys else x :: y :: ys

theorem place_perm (x : τ) (ys : List τ) : (place x ys).Perm (x :: ys) := by
  induction ys with
  | nil => exact .refl _
  | cons y ys ih =>
    simp only [place]
    split
    · exact (ih.cons y).trans (.swap x y ys)
    · exact .refl _

theorem mem_place {x y : τ} {ys : List τ} : y ∈ place x ys ↔ y = x ∨ y ∈ ys := by
  rw [(place_perm x ys).mem_iff, List.mem_cons]

theorem length_place (x : τ) (ys : List τ) : (place x ys).length = ys.length + 1 :=
  (place_perm x ys).length_eq

theorem place_chronological (x : τ) {ys : List τ} (h : Chronological ys) :
    Chronological (place x ys) := by
  induction ys with
  | nil => exact List.pairwise_singleton _ _
  | cons y ys ih =>
    have hy := List.pairwise_cons.1 h
    simp only [place]
    split
    · rename_i hyx
      refine List.pairwise_cons.2 ⟨fun b hb => ?_, ih hy.2⟩
      rcases mem_place.1 hb with rfl | hb
      · exact hyx
      · exact hy.1 b hb
    · rename_i hyx
      have hxy : instant x ≤ instant y := (Instant.le_total _ _).resolve_left hyx
      refine List.pairwise_cons.2 ⟨fun b hb => ?_, h⟩
      rcases List.mem_cons.1 hb with rfl | hb
      · exact hxy
      · exact Instant.le_trans hxy (hy.1 b hb)

/-! ## Keeping the newest -/

/-- The newest entries that a capacity leaves room for. -/
def newest (capacity : Nat) (xs : List τ) : List τ := latest (max capacity 1) xs

theorem newest_chronological (capacity : Nat) {xs : List τ} (h : Chronological xs) :
    Chronological (newest capacity xs) := List.Pairwise.drop h

/-! ## Timelines -/

variable {capacity : Nat}

/-- A timeline without entries. -/
def empty : Timeline τ capacity := ⟨[], .nil, Nat.zero_le _⟩

/-- The timeline with a further entry, less the oldest one if it was full. -/
def insert (t : Timeline τ capacity) (x : τ) : Timeline τ capacity where
  entries := newest capacity (place x t.entries)
  sorted := newest_chronological capacity (place_chronological x t.sorted)
  bounded := by rw [newest, length_latest]; exact Nat.min_le_right _ _

/-- The timeline of entries that arrive one after the other. -/
def ofList (capacity : Nat) (xs : List τ) : Timeline τ capacity := xs.foldl insert empty

/-- The number of entries. -/
def size (t : Timeline τ capacity) : Nat := t.entries.length

end Timeline

/-- A number at an instant. -/
structure Point (α : Type) where
  instant : Instant
  value : α

instance (α : Type) : Timed (Point α) := ⟨Point.instant⟩

/-- The numbers of a timeline, the oldest first. -/
def Timeline.values {α : Type} {capacity : Nat} (t : Timeline (Point α) capacity) : List α :=
  t.entries.map (·.value)

end CodeQuality
