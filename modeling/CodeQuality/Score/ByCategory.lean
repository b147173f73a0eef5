import CodeQuality.Analysis.Category

/-!
# Values by category

One value for each category, such as a weight or a component score.
-/

namespace CodeQuality

/-- One value for each category. -/
structure ByCategory (α : Type) where
  typeCheck : α
  lint : α
  coverage : α
  complexity : α
deriving DecidableEq

namespace ByCategory

variable {α β : Type}

/-- The value of a category. -/
def get (v : ByCategory α) : Category → α
  | .typeCheck => v.typeCheck
  | .lint => v.lint
  | .coverage => v.coverage
  | .complexity => v.complexity

/-- The values that a function gives. -/
def ofFn (f : Category → α) : ByCategory α :=
  ⟨f .typeCheck, f .lint, f .coverage, f .complexity⟩

/-- Every value changed. -/
def map (f : α → β) (v : ByCategory α) : ByCategory β := ofFn fun c => f (v.get c)

@[simp] theorem get_ofFn (f : Category → α) (c : Category) : (ofFn f).get c = f c := by
  cases c <;> rfl

@[simp] theorem get_map (f : α → β) (v : ByCategory α) (c : Category) :
    (v.map f).get c = f (v.get c) := get_ofFn ..

theorem ext_get {v w : ByCategory α} (h : ∀ c, v.get c = w.get c) : v = w := by
  cases v
  cases w
  exact mk.injEq .. ▸ ⟨h .typeCheck, h .lint, h .coverage, h .complexity⟩

end ByCategory

end CodeQuality
