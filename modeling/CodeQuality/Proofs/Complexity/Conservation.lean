import CodeQuality.Number.Binary64
import CodeQuality.Proofs.Complexity.Region

/-!
# Every decision is charged once

`FileMeasurement.complexity_conserved`: the figures of a file and those of the code outside all
functions add up to the decisions and the costs of all nodes of the syntax tree. The file sums up its
functions and methods and leaves out the classes, the measures walk regions, and the regions divide
the nodes among them (`Place.perm_regions`). What is summed up in 32 bits is told modulo `2 ^ 32`, and
exactly where the sum is smaller.

The functions and methods among the definitions of a tree are its functions, each once and in document
order (`Tree.trees_callables`), whatever classes lie around them.
-/

namespace CodeQuality

open Source

namespace Source

/-! ## Callables are the functions of the tree -/

/-- Whether a definition is a function or a method. -/
def Definition.isCallable (d : Definition) : Bool := d.kind != .class

theorem Definition.kind_measure (ds : List Definition) (d : Definition) :
    (d.measure ds).kind = d.kind := by
  unfold measure
  cases hkind : d.kind
  · exact hkind
  · exact hkind
  · rfl

theorem Definition.isCallable_measure (ds : List Definition) (d : Definition) :
    (d.measure ds).isCallable = d.isCallable := by
  rw [Measurement.isCallable, kind_measure, isCallable]

theorem Definition.measure_of_isCallable {ds : List Definition} {d : Definition}
    (h : d.isCallable = true) : d.measure ds = d.measureOwn := by
  simp only [Definition.measure]
  split
  · rename_i hclass
    rw [Definition.isCallable, hclass] at h
    nomatch h
  · rfl
  · rfl

theorem callablesOf_map_measure (ds es : List Definition) :
    callablesOf (es.map fun d => d.measure ds) =
      (es.filter (·.isCallable)).map (·.measureOwn) := by
  rw [callablesOf, List.filter_map]
  have hkind : (Measurement.isCallable ∘ fun d => d.measure ds) = Definition.isCallable :=
    funext fun d => Definition.isCallable_measure ds d
  rw [hkind]
  exact List.map_congr_left fun d hd => Definition.measure_of_isCallable (List.mem_filter.1 hd).2

namespace Tree

theorem not_mem_functionKinds {kind : String} (h : kind ∈ classKinds) : kind ∉ functionKinds := by
  simp only [classKinds, List.mem_cons, List.not_mem_nil, or_false] at h
  rcases h with rfl | rfl | rfl <;> decide

theorem isFunction_eq_false_of_isClass {t : Tree} (h : t.isClass = true) : t.isFunction = false := by
  simp only [isClass, Bool.and_eq_true, List.contains_eq_mem, decide_eq_true_eq] at h
  simp only [isFunction, List.contains_eq_mem, decide_eq_false (not_mem_functionKinds h.2),
    Bool.and_false]

theorem isClass_eq_false_of_isFunction {t : Tree} (h : t.isFunction = true) : t.isClass = false := by
  refine Bool.eq_false_iff.2 fun hclass => ?_
  rw [isFunction_eq_false_of_isClass hclass] at h
  cases h

theorem isCallable_functionDefinition (above : Option Tree) (scope : Option Scope) (address : Address)
    (t : Tree) : (functionDefinition above scope address t).isCallable = true := by
  simp only [functionDefinition]
  split <;> rfl

theorem tree_functionDefinition (above : Option Tree) (scope : Option Scope) (address : Address)
    (t : Tree) : (functionDefinition above scope address t).tree = t := by
  simp only [functionDefinition]
  split <;> rfl

mutual

theorem trees_callablesIn (above : Option Tree) (scope : Option Scope) (address : Address) :
    ∀ t : Tree, ((definitionsIn above scope address t).filter (·.isCallable)).map (·.tree) =
      t.subtrees.filter (·.isFunction)
  | .node n ts => by
    rw [definitionsIn, subtrees, List.filter_cons]
    split
    · -- a class gives a definition that is not callable, and is no function either
      rename_i hclass
      rw [isFunction_eq_false_of_isClass hclass]
      exact trees_callablesBelow _ _ _ _ ts
    · split
      · rw [List.filter_cons, isCallable_functionDefinition, if_pos rfl, List.map_cons,
          tree_functionDefinition, trees_callablesBelow _ _ _ _ ts]
      · exact trees_callablesBelow _ _ _ _ ts

theorem trees_callablesBelow (above : Tree) (scope : Option Scope) (address : Address) (i : Nat) :
    ∀ ts : List Tree,
      ((definitionsBelow above scope address i ts).filter (·.isCallable)).map (·.tree) =
        (subtreesBelow ts).filter (·.isFunction)
  | [] => rfl
  | t :: ts => by
    rw [definitionsBelow, subtreesBelow, List.filter_append, List.filter_append, List.map_append,
      trees_callablesIn _ _ _ t, trees_callablesBelow above scope address (i + 1) ts]

end

/-- The functions and methods among the definitions are the functions of the tree, in order. -/
theorem trees_callables (t : Tree) :
    (t.definitions.filter (·.isCallable)).map (·.tree) = t.subtrees.filter (·.isFunction) :=
  trees_callablesIn none none [] t

/-- The places of a tree. -/
def places (t : Tree) : List Place := Place.within [] t

theorem map_tree_places (t : Tree) : t.places.map (·.tree) = t.subtrees := Place.map_tree_within [] t

theorem trees_functions (t : Tree) :
    (Place.functions t.places).map (·.tree) = t.subtrees.filter (·.isFunction) := by
  rw [← map_tree_places, List.filter_map]
  rfl

theorem sum_callables (t : Tree) {f : Measurement → Nat} {g : Tree → Nat}
    (hfg : ∀ d : Definition, f d.measureOwn = g d.tree) :
    totalCount ((callablesOf t.measurements).map f) =
      totalCount ((Place.functions t.places).map fun p => g p.tree) := by
  have htrees := congrArg (List.map g) ((trees_callables t).trans (trees_functions t).symm)
  rw [List.map_map, List.map_map] at htrees
  rw [measurements, callablesOf_map_measure, List.map_map]
  exact congrArg totalCount ((List.map_congr_left fun d _ => hfg d).trans htrees)

end Tree

end Source

/-! ## Conservation -/

namespace Source.Place

theorem sum_cyclomatic (ps : List Place) :
    totalCount (ps.map fun p => p.tree.cyclomatic) = ps.length + decisionsAt (ps.flatMap region) := by
  induction ps with
  | nil => rfl
  | cons p ps ih =>
    have hp : p.tree.decisions = decisionsAt p.region := decisions_eq p.above p.tree
    rw [List.map_cons, totalCount_cons, ih, List.flatMap_cons, decisionsAt_append, List.length_cons,
      Tree.cyclomatic, hp]
    omega

/-- A function costs the same on its own as in its tree, since nesting starts anew in it. -/
theorem cognitive_eq {p : Place} (h : p.nesting = 0) :
    p.tree.cognitive = effortAt p.region % UInt32.size := by
  have hregion : p.tree.efforts p.nesting = .ofNat (effortAt p.region) := efforts_eq p.above p.tree
  rw [h] at hregion
  rw [Tree.cognitive, hregion]
  exact UInt32.toNat_ofNat'

theorem nesting_eq_zero {p : Place} (h : p.tree.isFunction = true) : p.nesting = 0 := by
  cases habove : p.above with
  | nil => rw [nesting, habove, nestingBelow]
  | cons a above => rw [nesting, habove, nestingBelow, if_pos h]

theorem effortAt_regions (ps : List Place) :
    effortAt (ps.flatMap region) = totalCount (ps.map fun p => effortAt p.region) := by
  induction ps with
  | nil => rfl
  | cons p ps ih => rw [List.flatMap_cons, effortAt_append, List.map_cons, totalCount_cons, ih]

theorem sum_cognitive {ps : List Place} (h : ∀ p ∈ ps, p.tree.isFunction = true) :
    totalCount (ps.map fun p => p.tree.cognitive) % UInt32.size =
      effortAt (ps.flatMap region) % UInt32.size := by
  rw [effortAt_regions]
  apply totalCount_map_mod
  intro p hp
  rw [cognitive_eq (nesting_eq_zero (h p hp)), Nat.mod_mod]

end Source.Place

namespace FileMeasurement

open Place

variable {α : Type} [Scalar α]

theorem cyclomatic_ofTree (path : String) (t : Tree) (lines : Nat) (coverage : α) :
    (ofTree path t lines coverage).cyclomatic =
      (functions t.places).length + decisionsAt ((functions t.places).flatMap region) :=
  (Tree.sum_callables t fun _ => rfl).trans (sum_cyclomatic _)

theorem cognitive_ofTree (path : String) (t : Tree) (lines : Nat) (coverage : α) :
    (ofTree path t lines coverage).cognitive =
      effortAt ((functions t.places).flatMap region) % UInt32.size := by
  have hsum := Tree.sum_callables t (f := Measurement.cognitive) (g := Tree.cognitive) fun _ => rfl
  have hwrapped : (ofTree path t lines coverage).cognitive =
      wrappedTotal UInt32.size ((callablesOf t.measurements).map (·.cognitive)) := rfl
  rw [hwrapped, wrappedTotal_eq, hsum]
  exact sum_cognitive fun _ hp => (List.mem_filter.1 hp).2

/-- **Every decision of a file is charged exactly once.** The sums over the functions and methods of
a file, together with the measures of the code outside of them, count every node of the tree, at the
nesting from the innermost function around it. Costs are summed up in 32 bits: the sums agree modulo
`2 ^ 32`, and exactly if there is room for all that the nodes cost. -/
theorem complexity_conserved (path : String) {t : Tree} (h : t.isFunction = false) (lines : Nat)
    (coverage : α) :
    (ofTree path t lines coverage).cyclomatic + t.cyclomatic =
        t.subtrees.countP (·.isFunction) + 1 + t.subtrees.countP (·.isDecision) ∧
      ((ofTree path t lines coverage).cognitive + t.cognitive) % UInt32.size =
        totalCount (t.places.map effort) % UInt32.size ∧
      (totalCount (t.places.map effort) < UInt32.size →
        (ofTree path t lines coverage).cognitive + t.cognitive =
          totalCount (t.places.map effort)) ∧
      t.places.map (·.tree) = t.subtrees := by
  -- the root is no function, so its region is what the functions leave over
  have hperm : t.places.Perm (regionFrom [] t ++ (functions t.places).flatMap region) := by
    have hregions := perm_regions [] t
    rwa [outerRegion, if_neg (by simp [h])] at hregions
  have heffort : totalCount (t.places.map effort) =
      effortAt ((functions t.places).flatMap region) + effortAt (regionFrom [] t) := by
    rw [Nat.add_comm, ← effortAt_append]
    exact totalCount_perm (hperm.map effort)
  have hroot : t.cognitive = effortAt (regionFrom [] t) % UInt32.size :=
    cognitive_eq (p := ⟨t, []⟩) rfl
  refine ⟨?_, ?_, ?_, Tree.map_tree_places t⟩
  · have hfunctions : t.subtrees.countP (·.isFunction) = (functions t.places).length := by
      rw [List.countP_eq_length_filter, ← Tree.trees_functions, List.length_map]
    have hdecisions : t.subtrees.countP (·.isDecision) =
        decisionsAt (regionFrom [] t) + decisionsAt ((functions t.places).flatMap region) := by
      rw [← decisionsAt_append, ← Tree.map_tree_places, List.countP_map]
      exact hperm.countP_eq _
    rw [cyclomatic_ofTree, hfunctions, hdecisions, Tree.cyclomatic, decisions_eq [] t]
    omega
  · rw [cognitive_ofTree, hroot, heffort, ← Nat.add_mod]
  · intro hroom
    rw [heffort] at hroom ⊢
    rw [cognitive_ofTree, hroot, Nat.mod_eq_of_lt (by omega), Nat.mod_eq_of_lt (by omega)]

/-- A choice around a class, whose method returns an arrow that decides. -/
def classInChoice : Tree :=
  let node (kind field : String) (children : List Tree) : Tree :=
    .node ⟨kind, true, some field, "", 0, 0⟩ children
  node "program" "" [node "if_statement" "" [node "statement_block" "consequence"
    [node "class_declaration" "" [node "class_body" "body" [node "method_definition" ""
      [node "if_statement" "" [node "arrow_function" "consequence"
        [node "ternary_expression" "body" []]]]]]]]]

theorem complexity_conserved_classInChoice :
    classInChoice.isFunction = false ∧ totalCount (classInChoice.places.map effort) < UInt32.size ∧
      (ofTree "a.ts" classInChoice 9 (0.0 : Float)).cyclomatic + classInChoice.cyclomatic =
        classInChoice.subtrees.countP (·.isFunction) + 1 +
          classInChoice.subtrees.countP (·.isDecision) ∧
      (ofTree "a.ts" classInChoice 9 (0.0 : Float)).cognitive + classInChoice.cognitive =
        totalCount (classInChoice.places.map effort) ∧
      classInChoice.places.map (·.tree) = classInChoice.subtrees := by
  have hroot : classInChoice.isFunction = false := by decide
  have hroom : totalCount (classInChoice.places.map effort) < UInt32.size := by decide
  obtain ⟨hcyclomatic, -, hcognitive, hplaces⟩ := complexity_conserved "a.ts" hroot 9 (0.0 : Float)
  exact ⟨hroot, hroom, hcyclomatic, hcognitive hroom, hplaces⟩

/-- The choice outside, the choice in the method and the conditional in the arrow. -/
example : classInChoice.places.map effort = [0, 1, 0, 0, 0, 0, 1, 0, 1] := by decide

end FileMeasurement

end CodeQuality
