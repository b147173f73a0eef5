import Mathlib.Algebra.BigOperators.Group.List.Basic
import Mathlib.Logic.Function.Iterate
import Mathlib.Logic.Relation
import Mathlib.Tactic.Abel

/-!
# Walks that keep a frontier

A walk keeps what it has met and not yet visited, on a stack or in any other order. A step visits a
member of this frontier, adds its cost to a sum and puts what it opens in its place.

`Frontier.collects_iff`: the order of the visits is of no account. What was collected and what the
frontier still owes are together the same after every step, so that a walk that empties its frontier
has collected what it owed at the start; and every walk gets that far, since what is opened is smaller.
The sum may be a whole number or a register that wraps around: only its addition is used.

A walk with a stack always visits the top (`pop`). It is done after as many visits as its members are
large together (`iterate_pop`).
-/

namespace CodeQuality.Frontier

variable {τ M : Type} [AddCommMonoid M]

/-- One visit, anywhere in the frontier. -/
inductive Step (cost : τ → M) (opens : τ → List τ) : List τ × M → List τ × M → Prop
  | visit (before : List τ) (x : τ) (after : List τ) (sum : M) :
      Step cost opens (before ++ x :: after, sum) (before ++ opens x ++ after, sum + cost x)

/-- A walk empties the frontier and collects the sum. -/
def Collects (cost : τ → M) (opens : τ → List τ) (frontier : List τ) (sum : M) : Prop :=
  Relation.ReflTransGen (Step cost opens) (frontier, 0) ([], sum)

variable {cost total : τ → M} {size : τ → ℕ} {opens : τ → List τ}

/-- What a frontier owes, when each member owes `total`. -/
def owed (total : τ → M) (frontier : List τ) : M := (frontier.map total).sum

theorem owed_nil : owed total [] = 0 := rfl

theorem owed_append (xs ys : List τ) : owed total (xs ++ ys) = owed total xs + owed total ys := by
  rw [owed, List.map_append, List.sum_append, owed, owed]

theorem owed_cons (x : τ) (xs : List τ) : owed total (x :: xs) = total x + owed total xs :=
  List.sum_cons

section totals

variable (htotal : ∀ x, total x = cost x + owed total (opens x))

include htotal

theorem step_owed {w w' : List τ × M} (h : Step cost opens w w') :
    w.2 + owed total w.1 = w'.2 + owed total w'.1 := by
  cases h with
  | visit before x after sum =>
    simp only [owed_append, owed_cons, htotal x]
    abel

theorem walk_owed {w w' : List τ × M} (h : Relation.ReflTransGen (Step cost opens) w w') :
    w.2 + owed total w.1 = w'.2 + owed total w'.1 := by
  induction h with
  | refl => rfl
  | tail _ hstep ih => exact ih.trans (step_owed htotal hstep)

end totals

theorem exists_walk (cost : τ → M) (hsize : ∀ x, owed size (opens x) < size x)
    (frontier : List τ) (sum : M) :
    ∃ sum', Relation.ReflTransGen (Step cost opens) (frontier, sum) ([], sum') := by
  generalize hn : owed size frontier = n
  induction n using Nat.strongRecOn generalizing frontier sum with
  | ind n ih =>
    cases frontier with
    | nil => exact ⟨sum, .refl⟩
    | cons x rest =>
      have hstep : Step cost opens (x :: rest, sum) (opens x ++ rest, sum + cost x) :=
        .visit [] x rest sum
      have hless : owed size (opens x ++ rest) < n := by
        have hx := hsize x
        rw [owed_cons] at hn
        rw [owed_append]
        omega
      obtain ⟨sum', hwalk⟩ := ih _ hless (opens x ++ rest) (sum + cost x) rfl
      exact ⟨sum', .head hstep hwalk⟩

/-- A walk collects what its frontier owes, in whatever order it visits. -/
theorem collects_iff (htotal : ∀ x, total x = cost x + owed total (opens x))
    (hsize : ∀ x, owed size (opens x) < size x) {frontier : List τ} {sum : M} :
    Collects cost opens frontier sum ↔ sum = owed total frontier := by
  have hcollected : ∀ {sum'}, Collects cost opens frontier sum' → sum' = owed total frontier := by
    intro sum' h
    have hsame := walk_owed htotal h
    simpa [owed] using hsame.symm
  constructor
  · exact hcollected
  · rintro rfl
    obtain ⟨sum', hwalk⟩ := exists_walk cost hsize frontier 0
    exact hcollected hwalk ▸ hwalk

/-! ## Stacks -/

/-- The visit of a walk that keeps its frontier on a stack, the top first. -/
def pop (cost : τ → M) (opens : τ → List τ) : List τ × M → List τ × M
  | ([], sum) => ([], sum)
  | (x :: rest, sum) => (opens x ++ rest, sum + cost x)

theorem step_pop (x : τ) (rest : List τ) (sum : M) :
    Step cost opens (x :: rest, sum) (pop cost opens (x :: rest, sum)) :=
  .visit [] x rest sum

theorem iterate_pop_nil (n : ℕ) (sum : M) :
    (pop cost opens)^[n] ([], sum) = ([], sum + owed total []) := by
  rw [owed_nil, add_zero]
  induction n with
  | zero => rfl
  | succ n ih => rw [Function.iterate_succ_apply, pop, ih]

/-- A stack is empty after as many visits as its members are large together, and what it owed is
collected. -/
theorem iterate_pop (htotal : ∀ x, total x = cost x + owed total (opens x))
    (hsize : ∀ x, owed size (opens x) < size x) {stack : List τ} {n : ℕ} (h : owed size stack ≤ n)
    (sum : M) : (pop cost opens)^[n] (stack, sum) = ([], sum + owed total stack) := by
  induction n generalizing stack sum with
  | zero =>
    cases stack with
    | nil => exact iterate_pop_nil 0 sum
    | cons x rest =>
      have hx := hsize x
      rw [owed_cons] at h
      omega
  | succ n ih =>
    cases stack with
    | nil => exact iterate_pop_nil _ _
    | cons x rest =>
      have hx := hsize x
      have hrest : owed size (opens x ++ rest) ≤ n := by
        rw [owed_cons] at h
        rw [owed_append]
        omega
      have hsame := step_owed htotal (step_pop x rest sum)
      rw [Function.iterate_succ_apply, pop, ih hrest]
      exact congrArg _ hsame.symm

end CodeQuality.Frontier
