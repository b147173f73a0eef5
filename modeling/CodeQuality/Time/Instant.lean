import CodeQuality.Time.Calendar

/-!
# Instants

A point in time to the nanosecond. A leap second is the second nanosecond billion of the second
that it follows, so that instants are ordered by second and then by nanosecond.
-/

namespace CodeQuality

/-- A point in time: seconds since the start of 1970 in UTC, and nanoseconds. -/
structure Instant where
  second : Int
  nano : Nat
deriving DecidableEq

namespace Instant

/-- The earlier instant, or the same one. -/
def le (a b : Instant) : Prop := a.second < b.second ∨ a.second = b.second ∧ a.nano ≤ b.nano

instance : LE Instant := ⟨le⟩

instance (a b : Instant) : Decidable (a ≤ b) := inferInstanceAs (Decidable (_ ∨ _))

theorem le_def (a b : Instant) :
    a ≤ b ↔ a.second < b.second ∨ a.second = b.second ∧ a.nano ≤ b.nano := Iff.rfl

theorem le_refl (a : Instant) : a ≤ a := by rw [le_def]; omega

theorem le_trans {a b c : Instant} (hab : a ≤ b) (hbc : b ≤ c) : a ≤ c := by
  rw [le_def] at *; omega

theorem le_total (a b : Instant) : a ≤ b ∨ b ≤ a := by simp only [le_def]; omega

theorem le_antisymm {a b : Instant} (hab : a ≤ b) (hba : b ≤ a) : a = b := by
  cases a; cases b
  simp only [le_def] at hab hba
  simp only [mk.injEq]
  omega

end Instant

end CodeQuality
