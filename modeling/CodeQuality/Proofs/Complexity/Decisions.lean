import Mathlib.Data.Set.Card
import CodeQuality.Proofs.Complexity.Nesting

/-!
# Cyclomatic complexity by decisions

`Tree.cyclomatic_by_decisions`: the cyclomatic complexity of a tree is one more than the number of nodes
that decide, among those that are reached from its root without entering a function. A node decides by its
kind, or as an operation by its operator; at which depth it stands is of no account.

The nodes are those that the cognitive complexity weighs as well (`Reaches`), so that each is counted once
(`ncard_decides`). A walk knows a node by the way to it, and passes over a function unless it started there.
Kept on a stack, the walk ends after as many visits as the tree has nodes, with the cyclomatic complexity as
its count (`Pushed.iterate_pop`); any other order ends with the same count (`Pushed.collects_iff`).
-/

namespace CodeQuality.Source

/-- The kinds of nodes at which control flow decides, logical operators apart. The `default` of a
`switch` is of another kind than its cases. -/
def decisionKinds : List String :=
  "if_statement" :: loopKinds ++ ["switch_case", "catch_clause", "ternary_expression"]

namespace Tree

/-! ## Decisions -/

/-- Control flow decides at the root of a tree. -/
def Decides (t : Tree) : Prop :=
  t.root.kind ∈ decisionKinds ∨
    t.root.kind = "binary_expression" ∧
      ∃ op ∈ t.field? "operator", op.root.text = "&&" ∨ op.root.text = "||"

theorem isDecision_iff (t : Tree) : t.isDecision = true ↔ t.Decides := by
  unfold isDecision Decides
  rw [← isLogical_iff]
  generalize hconstruct : t.construct = c
  unfold construct Construct.ofKind at hconstruct
  -- one case for each kind that stands for a construct
  split at hconstruct <;> subst hconstruct <;> simp_all [decisionKinds, loopKinds]

/-- A decision counts one. -/
def decision (t : Tree) : Nat := if t.isDecision then 1 else 0

theorem decisionsBelow_eq (ts : List Tree) :
    decisionsBelow ts = totalCount (ts.map fun t => if t.isFunction then 0 else t.decisions) := by
  induction ts with
  | nil => rfl
  | cons t ts ih => rw [decisionsBelow, ih, List.map_cons, totalCount_cons]

/-! ## Counting visits -/

mutual

theorem decisions_eq_visits (way : Address) (depth : Nat) : ∀ t : Tree,
    t.decisions = (visitsFrom way depth t).countP (·.tree.isDecision)
  | node n ts => by
    have hbelow := decisionsBelow_eq_visits (node n ts) way depth 0 ts
    rw [decisions_eq_below, visitsFrom, List.countP_cons, Nat.add_comm]
    exact congrArg (· + _) hbelow

theorem decisionsBelow_eq_visits (a : Tree) (way : Address) (depth i : Nat) : ∀ ts : List Tree,
    decisionsBelow ts = (visitsBelow a way depth i ts).countP (·.tree.isDecision)
  | [] => rfl
  | t :: ts => by
    rw [decisionsBelow, visitsBelow, List.countP_append,
      decisionsBelow_eq_visits a way depth (i + 1) ts]
    split
    · rfl
    · rw [decisions_eq_visits (way ++ [i]) (depthUnder depth a t) t]

end

/-- The nodes that decide among those that are reached are as many as the visits that decide. -/
theorem ncard_decides (n : Tree) :
    {v | n.Reaches v ∧ v.tree.Decides}.ncard = n.visits.countP (·.tree.isDecision) := by
  classical
  have hnodup : n.visits.Nodup := List.Nodup.of_map _ n.nodup_ways
  have hset : {v | n.Reaches v ∧ v.tree.Decides} =
      ((n.visits.filter (·.tree.isDecision)).toFinset : Set Visit) := by
    ext v
    simp only [Set.mem_ofPred_eq, List.coe_toFinset, List.mem_filter, mem_visits, isDecision_iff]
  rw [hset, Set.ncard_coe_finset, List.toFinset_card_of_nodup (hnodup.filter _),
    List.countP_eq_length_filter]

/-! ## Walks -/

/-- A node that a walk has met, known by the way to it. -/
structure Pushed where
  way : Address
  tree : Tree

namespace Pushed

/-- A function is passed over, unless the walk starts from it. -/
def passed (p : Pushed) : Bool := p.way != [] && p.tree.isFunction

def cost (p : Pushed) : Nat := if p.passed then 0 else p.tree.decision

/-- The children in the order in which a stack gives them back: the one that was pushed last comes
first. -/
def opened (p : Pushed) : List Pushed :=
  if p.passed then [] else (p.tree.children.mapIdx fun i t => ⟨p.way ++ [i], t⟩).reverse

def total (p : Pushed) : Nat := if p.passed then 0 else p.tree.decisions

def size (p : Pushed) : Nat := p.tree.subtrees.length

theorem owed_children (f : Tree → Nat) (g : Pushed → Nat) (way : Address)
    (hg : ∀ i t, g ⟨way ++ [i], t⟩ = f t) (ts : List Tree) :
    Frontier.owed g (ts.mapIdx fun i t => ⟨way ++ [i], t⟩).reverse = totalCount (ts.map f) := by
  have hmap : (ts.mapIdx fun i t => (⟨way ++ [i], t⟩ : Pushed)).map g = ts.map f := by
    apply List.ext_getElem
    · simp
    · intro i hi hi'
      simp [hg]
  rw [Frontier.owed, ((List.reverse_perm _).map g).sum_eq, hmap]
  rfl

theorem total_eq (p : Pushed) : p.total = p.cost + Frontier.owed total p.opened := by
  unfold cost opened
  by_cases hpassed : p.passed = true
  · rw [total, if_pos hpassed, if_pos hpassed, if_pos hpassed]
    rfl
  · have hchild : ∀ i t, total ⟨p.way ++ [i], t⟩ = if t.isFunction then 0 else t.decisions := by
      intro i t
      have hway : (p.way ++ [i] != []) = true := by simp
      rw [total, passed, hway, Bool.true_and]
    rw [if_neg hpassed, if_neg hpassed, owed_children _ total p.way hchild, ← decisionsBelow_eq,
      total, if_neg hpassed, decisions_eq_below]
    rfl

theorem owed_size_opened (p : Pushed) : Frontier.owed size p.opened < p.size := by
  rw [size, length_subtrees, opened]
  by_cases hpassed : p.passed = true
  · rw [if_pos hpassed]
    exact Nat.succ_pos _
  · rw [if_neg hpassed, owed_children (fun t => t.subtrees.length) size p.way fun _ _ => rfl]
    exact Nat.lt_succ_self _

theorem collects_iff (n : Tree) (sum : Nat) :
    Frontier.Collects cost opened [⟨[], n⟩] sum ↔ sum = n.decisions :=
  Frontier.collects_iff total_eq owed_size_opened

/-- A walk with a stack counts the decisions on top of what it starts with. -/
theorem iterate_pop (n : Tree) (k sum : Nat) :
    (Frontier.pop cost opened)^[n.subtrees.length + k] ([⟨[], n⟩], sum) = ([], sum + n.decisions) := by
  have howed : Frontier.owed size [⟨[], n⟩] ≤ n.subtrees.length + k := by
    rw [Frontier.owed_cons]
    exact Nat.le_add_right _ _
  exact Frontier.iterate_pop total_eq owed_size_opened howed sum

end Pushed

/-- **Cyclomatic complexity in closed form.** It is one more than the number of nodes that decide among
those that are reached from the root without entering a function. A walk that starts to count from one and
keeps what it has met on a stack has counted it when the stack is empty, which it is after as many visits as
the tree has nodes; and so has a walk that visits what it has met in any other order. -/
theorem cyclomatic_by_decisions (n : Tree) :
    n.cyclomatic = 1 + {v | n.Reaches v ∧ v.tree.Decides}.ncard ∧
      (∀ k, (Frontier.pop Pushed.cost Pushed.opened)^[n.subtrees.length + k] ([⟨[], n⟩], 1) =
        ([], n.cyclomatic)) ∧
      ∀ sum, Frontier.Collects Pushed.cost Pushed.opened [⟨[], n⟩] sum ↔ n.cyclomatic = 1 + sum := by
  refine ⟨?_, ?_, ?_⟩
  · rw [ncard_decides, cyclomatic, decisions_eq_visits [] 0 n]
    rfl
  · intro k
    exact Pushed.iterate_pop n k 1
  · intro sum
    rw [Pushed.collects_iff, cyclomatic]
    omega

/-- A function that returns a function: the walk from the outer one does not enter the inner one, which
holds the decision, and the walk from the inner one does not pass over its start. -/
example :
    let node (kind field text : String) (children : List Tree) : Tree :=
      .node ⟨kind, true, some field, text, 0, 0⟩ children
    let inner := node "arrow_function" "body" "" [node "binary_expression" "body" ""
      [node "identifier" "left" "a" [], node "&&" "operator" "&&" [], node "identifier" "right" "b" []]]
    let outer := node "arrow_function" "" "" [inner]
    outer.cyclomatic = 1 ∧ inner.cyclomatic = 2 := by decide

end Tree

end CodeQuality.Source
