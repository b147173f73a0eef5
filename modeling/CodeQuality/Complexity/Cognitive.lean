import CodeQuality.Source.Construct

/-!
# Cognitive complexity

Choices, loops, selections and handlers cost one and the depth at which they stand; so do
conditional expressions. Their branches and bodies are one deeper, the rest of them is not, and a
conditional expression does not deepen anything. A logical operator costs one at any depth.
Functions inside the measured tree are left out.

Constructs that stand inside each other cost about half the square of their number, which may be more
than 32 bits hold. The costs are summed up in 32 bits and wrap around.
-/

namespace CodeQuality.Source

/-- The fields whose trees stand one deeper. -/
def Construct.nestedFields : Construct → List String
  | choice => ["consequence", "alternative"]
  | loop | selection | handler => ["body"]
  | selectionCase | conditional | operation | plain => []

namespace Tree

/-- What the root of a tree costs at a depth. -/
def effort (depth : Nat) (t : Tree) : Nat :=
  match t.construct with
  | .choice | .loop | .selection | .handler | .conditional => 1 + depth
  | .operation => if t.isLogical then 1 else 0
  | .selectionCase | .plain => 0

/-- The depth of a tree directly below a construct at a depth. -/
def depthBelow (above : Construct) (depth : Nat) (t : Tree) : Nat :=
  if t.root.field.any above.nestedFields.contains then depth + 1 else depth

mutual

/-- What a tree at a depth costs, functions inside it left out. -/
def efforts (depth : Nat) : Tree → UInt32
  | node n ts => .ofNat (effort depth (node n ts)) + effortsBelow (.ofKind n.kind) depth ts

/-- What the trees below a construct at a depth cost, functions left out. -/
def effortsBelow (above : Construct) (depth : Nat) : List Tree → UInt32
  | [] => 0
  | t :: ts =>
    (if t.isFunction then 0 else efforts (depthBelow above depth t) t) +
      effortsBelow above depth ts

end

theorem efforts_eq_below (depth : Nat) (t : Tree) :
    t.efforts depth =
      .ofNat (t.effort depth) + effortsBelow t.construct depth t.children := by
  cases t
  rfl

/-- The cognitive complexity of a tree. -/
def cognitive (t : Tree) : Nat := (t.efforts 0).toNat

end Tree

end CodeQuality.Source
