import CodeQuality.Source.Construct

/-!
# Cyclomatic complexity

One, and one more for every decision. Functions inside the measured tree are measured on their own
and left out; the measured tree itself counts also if it is a function.

Every decision and every function takes up at least two bytes of its own of a source, and a source that
can be parsed has fewer than `2 ^ 32`. So 32 bits have room for the complexities of a whole file, which
are whole numbers here.
-/

namespace CodeQuality.Source.Tree

mutual

/-- The decisions of a tree, functions inside it left out. -/
def decisions : Tree → Nat
  | node n ts => (if (node n ts).isDecision then 1 else 0) + decisionsBelow ts

/-- The decisions of the trees of a list that are no functions. -/
def decisionsBelow : List Tree → Nat
  | [] => 0
  | t :: ts => (if t.isFunction then 0 else decisions t) + decisionsBelow ts

end

theorem decisions_eq_below (t : Tree) :
    t.decisions = (if t.isDecision then 1 else 0) + decisionsBelow t.children := by
  cases t
  rfl

/-- The cyclomatic complexity of a tree. -/
def cyclomatic (t : Tree) : Nat := 1 + t.decisions

end CodeQuality.Source.Tree
