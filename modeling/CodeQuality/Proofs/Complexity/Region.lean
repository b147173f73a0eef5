import CodeQuality.Complexity.Measurement

/-!
# Regions of a syntax tree

A place is a node of a tree together with the nodes above it. The region of a place is what a walk
reaches from it without entering a function: the code that belongs to the function at the place, if it
is one. `Place.perm_regions`: the regions of all functions and that of the root divide the places of
a tree among them.

Both measures of complexity are sums over a region (`Place.decisions_eq`, `Place.efforts_eq`), the
cognitive one at the nesting of each place, which is counted from the innermost function around it. It
holds what the sum leaves in 32 bits.
-/

namespace CodeQuality.Source

/-- A node of a tree and the nodes above it, the innermost first. -/
structure Place where
  tree : Tree
  above : List Tree

namespace Place

/-- Whether the step from `a` down to its child `t` goes one deeper. -/
def deepens (a t : Tree) : Bool := t.root.field.any a.construct.nestedFields.contains

/-- The steps that go deeper on the way down to `t`, from the innermost function on. -/
def nestingBelow (t : Tree) : List Tree → Nat
  | [] => 0
  | a :: above =>
    if t.isFunction then 0 else nestingBelow a above + if deepens a t then 1 else 0

/-- The nesting of a place, counted from the innermost function, which may be the place itself. -/
def nesting (p : Place) : Nat := nestingBelow p.tree p.above

/-- What a place costs at its nesting. -/
def effort (p : Place) : Nat := p.tree.effort p.nesting

/-! ## Walks -/

mutual

/-- The places in a tree that lies below `above`. -/
def within (above : List Tree) : Tree → List Place
  | .node n ts => ⟨.node n ts, above⟩ :: withinAll (.node n ts :: above) ts

/-- The places in trees that lie below `above`. -/
def withinAll (above : List Tree) : List Tree → List Place
  | [] => []
  | t :: ts => within above t ++ withinAll above ts

end

mutual

/-- The places in a tree below `above` that are reached without entering a function. -/
def regionFrom (above : List Tree) : Tree → List Place
  | .node n ts => ⟨.node n ts, above⟩ :: regionBelow (.node n ts :: above) ts

/-- The places in trees below `above` that are reached without entering a function. -/
def regionBelow (above : List Tree) : List Tree → List Place
  | [] => []
  | t :: ts => (if t.isFunction then [] else regionFrom above t) ++ regionBelow above ts

end

/-- The region of a place. -/
def region (p : Place) : List Place := regionFrom p.above p.tree

/-- The functions among places. -/
def functions (ps : List Place) : List Place := ps.filter (·.tree.isFunction)

/-- The region of a tree that is no function, and nothing otherwise. -/
def outerRegion (above : List Tree) (t : Tree) : List Place :=
  if t.isFunction then [] else regionFrom above t

theorem functions_append (ps qs : List Place) :
    functions (ps ++ qs) = functions ps ++ functions qs := List.filter_append ..

mutual

theorem map_tree_within (above : List Tree) :
    ∀ t : Tree, (within above t).map (·.tree) = t.subtrees
  | .node n ts => by
    rw [within, Tree.subtrees, List.map_cons, map_tree_withinAll _ ts]

theorem map_tree_withinAll (above : List Tree) :
    ∀ ts : List Tree, (withinAll above ts).map (·.tree) = Tree.subtreesBelow ts
  | [] => rfl
  | t :: ts => by
    rw [withinAll, Tree.subtreesBelow, List.map_append, map_tree_within above t,
      map_tree_withinAll above ts]

end

/-! ## The partition -/

mutual

/-- The places of a tree are those outside all functions and those in the region of each function. -/
theorem perm_regions (above : List Tree) : ∀ t : Tree,
    (within above t).Perm
      (outerRegion above t ++ (functions (within above t)).flatMap region)
  | .node n ts => by
    have hbelow := (perm_regionsBelow (.node n ts :: above) ts).cons ⟨.node n ts, above⟩
    rw [← List.cons_append] at hbelow
    rw [within, functions, List.filter_cons, outerRegion]
    split
    · -- a function is the first of those whose regions are taken
      rw [List.nil_append, List.flatMap_cons]
      exact hbelow
    · exact hbelow

theorem perm_regionsBelow (above : List Tree) : ∀ ts : List Tree,
    (withinAll above ts).Perm
      (regionBelow above ts ++ (functions (withinAll above ts)).flatMap region)
  | [] => .nil
  | t :: ts => by
    have ht := perm_regions above t
    have hts := perm_regionsBelow above ts
    rw [withinAll, functions_append, List.flatMap_append, regionBelow]
    refine (ht.append hts).trans ?_
    -- the regions outside of functions come together
    rw [List.append_assoc, List.append_assoc]
    refine .append_left _ ?_
    rw [← List.append_assoc, ← List.append_assoc]
    exact .append_right _ List.perm_append_comm

end

/-! ## Measures are sums over regions -/

theorem regionBelow_cons (above : List Tree) (t : Tree) (ts : List Tree) :
    regionBelow above (t :: ts) = outerRegion above t ++ regionBelow above ts := rfl

/-- The number of decisions at places. -/
def decisionsAt (ps : List Place) : Nat := ps.countP (·.tree.isDecision)

/-- What places cost together. -/
def effortAt (ps : List Place) : Nat := totalCount (ps.map effort)

theorem decisionsAt_append (ps qs : List Place) :
    decisionsAt (ps ++ qs) = decisionsAt ps + decisionsAt qs := List.countP_append ..

theorem effortAt_append (ps qs : List Place) :
    effortAt (ps ++ qs) = effortAt ps + effortAt qs := by
  rw [effortAt, List.map_append, totalCount_append, effortAt, effortAt]

mutual

theorem decisions_eq (above : List Tree) : ∀ t : Tree,
    t.decisions = decisionsAt (regionFrom above t)
  | .node n ts => by
    rw [Tree.decisions, regionFrom, decisionsAt, List.countP_cons, decisionsBelow_eq _ ts, Nat.add_comm]
    rfl

theorem decisionsBelow_eq (above : List Tree) : ∀ ts : List Tree,
    Tree.decisionsBelow ts = decisionsAt (regionBelow above ts)
  | [] => rfl
  | t :: ts => by
    rw [Tree.decisionsBelow, regionBelow_cons, decisionsAt_append, decisionsBelow_eq above ts,
      outerRegion]
    split
    · rfl
    · rw [decisions_eq above t]

end

theorem depthBelow_eq (a t : Tree) (depth : Nat) :
    Tree.depthBelow a.construct depth t = depth + if deepens a t then 1 else 0 := by
  show (if deepens a t then depth + 1 else depth) = _
  cases deepens a t <;> rfl

mutual

theorem efforts_eq (above : List Tree) : ∀ t : Tree,
    t.efforts (nestingBelow t above) = .ofNat (effortAt (regionFrom above t))
  | .node n ts => by
    have hts := effortsBelow_eq (.node n ts) above ts
    rw [Tree.efforts, regionFrom, effortAt, List.map_cons, totalCount_cons, UInt32.ofNat_add]
    exact congrArg _ hts

theorem effortsBelow_eq (a : Tree) (above : List Tree) : ∀ ts : List Tree,
    Tree.effortsBelow a.construct (nestingBelow a above) ts =
      .ofNat (effortAt (regionBelow (a :: above) ts))
  | [] => rfl
  | t :: ts => by
    rw [Tree.effortsBelow, regionBelow_cons, effortAt_append, UInt32.ofNat_add,
      effortsBelow_eq a above ts, outerRegion]
    split
    · rfl
    · -- only a child that is walked into inherits the nesting, and with it the step down to it
      rename_i h
      rw [← efforts_eq (a :: above) t, nestingBelow, if_neg h, depthBelow_eq]

end

end Place

end CodeQuality.Source
