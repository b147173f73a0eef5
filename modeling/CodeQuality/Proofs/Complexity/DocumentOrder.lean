import CodeQuality.Proofs.Complexity.Membership
import CodeQuality.Proofs.Complexity.Search

/-!
# Definitions in document order

`Tree.definitions_in_order`: the definitions of a tree are its classes and functions, each once, a node
before what lies below it and siblings from left to right; and what each of them is can be told from
the nodes above it.

The sites of a tree are listed in this order (`Tree.sitesIn_ordered`), and the definitions are those at
its sites (`Tree.definitions_eq`), so that the order of the listing passes to them. The scope that the
search carries is the innermost class or function above a site (`Tree.scopeBelow_eq_some`), which
leaves three forms of a definition (`Tree.mem_definitions_iff`). Nothing of this depends on how deep a
tree is: a stack in place of the recursion finds the same definitions (`Search.found_run`).
-/

namespace CodeQuality.Source

/-- Document order: a node stands before what lies below it, and what lies in a branch before what lies
in the branches to the right. -/
inductive Before : Address → Address → Prop
  | below (outer : Address) (i : Nat) (way : Address) : Before outer (outer ++ i :: way)
  | right (outer : Address) {i j : Nat} (h : i < j) (way way' : Address) :
      Before (outer ++ i :: way) (outer ++ j :: way')

theorem Before.lt {p q : Address} (h : Before p q) : p < q := by
  cases h with
  | below _ i way =>
    have hlt : p ++ [] < p ++ i :: way := List.append_left_lt (List.nil_lt_cons i way)
    rwa [List.append_nil] at hlt
  | right outer h way way' => exact List.append_left_lt (List.cons_lt_cons_iff.2 (.inl h))

theorem Before.ne {p q : Address} (h : Before p q) : p ≠ q := by
  rintro rfl
  exact List.lt_irrefl p h.lt

theorem Before.asymm {p q : Address} (h : Before p q) : ¬ Before q p :=
  fun h' => List.lt_asymm h.lt h'.lt

namespace Tree

/-! ## Sites -/

mutual

theorem sitesIn_ordered (above : List Tree) (address : Address) :
    ∀ t : Tree, (sitesIn above address t).Pairwise fun s s' => Before s.address s'.address
  | node n ts => by
    rw [sitesIn, List.pairwise_cons]
    refine ⟨?_, sitesBelow_ordered _ address 0 ts⟩
    intro s hs
    obtain ⟨j, way, -, -, haddress, -⟩ := mem_sitesBelow.1 hs
    rw [haddress]
    exact .below address (0 + j) way

theorem sitesBelow_ordered (above : List Tree) (address : Address) (i : Nat) :
    ∀ ts : List Tree,
      (sitesBelow above address i ts).Pairwise fun s s' => Before s.address s'.address
  | [] => .nil
  | t :: ts => by
    rw [sitesBelow, List.pairwise_append]
    refine ⟨sitesIn_ordered above _ t, sitesBelow_ordered above address (i + 1) ts, ?_⟩
    -- the branch at `i` stands before the branches to its right
    intro s hs s' hs'
    obtain ⟨way, haddress, -⟩ := mem_sitesIn.1 hs
    obtain ⟨j, way', -, -, haddress', -⟩ := mem_sitesBelow.1 hs'
    rw [haddress, haddress', List.append_assoc]
    exact .right address (by omega) way way'

end

theorem sites_ordered (t : Tree) : t.sites.Pairwise fun s s' => Before s.address s'.address :=
  sitesIn_ordered [] [] t

/-! ## Definitions -/

theorem definitions_ordered (t : Tree) :
    t.definitions.Pairwise fun d e => Before d.address e.address := by
  rw [definitions_eq, List.pairwise_filterMap]
  refine t.sites_ordered.imp ?_
  intro s s' hbefore d hd e he
  rw [Site.address_of_definition? hd, Site.address_of_definition? he]
  exact hbefore

variable {t f : Tree} {p : Address} {d : Definition}

/-- What can be a definition of a tree: a class; a function that is a member where it stands, inside a
class that is the innermost class or function above it; any other function. -/
inductive Defines (t : Tree) : Definition → Prop
  | ofClass {p : Address} {cls : Place} (place : t.place? p = some cls)
      (isClass : cls.tree.isClass = true) :
      Defines t ⟨cls.tree, p, cls.tree.className, .class, none⟩
  | ofMethod {c p : Address} {cls : Place} {f : Tree} {between : List Tree}
      (encloses : t.Encloses c p cls f between) (isFunction : f.isFunction = true)
      (isMember : f.isMember (between ++ cls.tree :: cls.above).head? = true) :
      Defines t ⟨f, p, cls.tree.className ++ "." ++
        f.functionName (between ++ cls.tree :: cls.above).head?, .method, some c⟩
  | ofFunction {p : Address} {f : Tree} {above : List Tree} (place : t.place? p = some ⟨f, above⟩)
      (isFunction : f.isFunction = true)
      (alone : ∀ c cls between, t.Encloses c p cls f between → f.isMember above.head? = false) :
      Defines t ⟨f, p, f.functionName above.head?, .function, none⟩

theorem functionDefinition_of_isMember {above : Option Tree} (h : f.isMember above = true)
    (s : Scope) :
    functionDefinition above (some s) p f =
      ⟨f, p, s.name ++ "." ++ f.functionName above, .method, some s.address⟩ := by
  simp [functionDefinition, Option.filter, h]

theorem functionDefinition_of_alone {above : Option Tree} {scope : Option Scope}
    (h : ∀ s, scope = some s → f.isMember above = false) :
    functionDefinition above scope p f = ⟨f, p, f.functionName above, .function, none⟩ := by
  cases scope with
  | none => rfl
  | some s => simp [functionDefinition, Option.filter, h s rfl]

theorem above_of_encloses {c : Address} {cls : Place} {above between : List Tree}
    (hplace : t.place? p = some ⟨f, above⟩) (henc : t.Encloses c p cls f between) :
    above = between ++ cls.tree :: cls.above :=
  congrArg Place.above (Option.some.inj (hplace.symm.trans henc.inner))

theorem mem_definitions_iff : d ∈ t.definitions ↔ t.Defines d := by
  rw [mem_definitions]
  constructor
  · rintro ⟨s, hplace, hdefinition⟩
    rcases Site.definition?_eq_some.1 hdefinition with ⟨hclass, rfl⟩ | ⟨-, hfunction, rfl⟩
    · exact .ofClass hplace hclass
    · have hscope : ∀ scope, s.scope = some scope ↔ _ := fun scope => scopeBelow_eq_some hplace
      by_cases hmember : ∃ scope, s.scope = some scope ∧ s.tree.isMember s.above.head? = true
      · obtain ⟨⟨c, name⟩, hs, hmember⟩ := hmember
        obtain ⟨cls, between, henc, rfl⟩ := (hscope _).1 hs
        rw [hs, functionDefinition_of_isMember hmember]
        rw [above_of_encloses hplace henc] at hmember ⊢
        exact .ofMethod henc hfunction hmember
      · have halone : ∀ scope, s.scope = some scope → s.tree.isMember s.above.head? = false := by
          intro scope hs
          exact Bool.eq_false_iff.2 fun h => hmember ⟨scope, hs, h⟩
        rw [functionDefinition_of_alone halone]
        refine .ofFunction hplace hfunction ?_
        intro c cls between henc
        exact halone _ ((hscope ⟨c, cls.tree.className⟩).2 ⟨cls, between, henc, rfl⟩)
  · intro h
    cases h with
    | @ofClass p cls place isClass =>
      exact ⟨⟨cls, p⟩, place, Site.definition?_eq_some.2 (.inl ⟨isClass, rfl⟩)⟩
    | @ofMethod c p cls f between encloses isFunction isMember =>
      let s : Site := ⟨⟨f, between ++ cls.tree :: cls.above⟩, p⟩
      have hscope : s.scope = some ⟨c, cls.tree.className⟩ :=
        (scopeBelow_eq_some encloses.inner).2 ⟨cls, between, encloses, rfl⟩
      refine ⟨s, encloses.inner, Site.definition?_eq_some.2 (.inr ⟨?_, isFunction, ?_⟩)⟩
      · exact isClass_eq_false_of_isFunction isFunction
      · rw [hscope]
        exact (functionDefinition_of_isMember isMember ⟨c, cls.tree.className⟩).symm
    | @ofFunction p f above place isFunction alone =>
      let s : Site := ⟨⟨f, above⟩, p⟩
      refine ⟨s, place, Site.definition?_eq_some.2 (.inr ⟨?_, isFunction, ?_⟩)⟩
      · exact isClass_eq_false_of_isFunction isFunction
      · refine (functionDefinition_of_alone ?_).symm
        intro scope hs
        obtain ⟨cls, between, henc, -⟩ := (scopeBelow_eq_some place).1 hs
        exact alone _ cls between henc

mutual

theorem trees_definitionsIn (above : Option Tree) (scope : Option Scope) (address : Address) :
    ∀ t : Tree, (definitionsIn above scope address t).map (·.tree) =
      t.subtrees.filter fun u => u.isClass || u.isFunction
  | node n ts => by
    rw [definitionsIn, subtrees, List.filter_cons]
    by_cases hclass : (node n ts).isClass = true
    · simp only [hclass, Bool.true_or, if_true, List.map_cons, trees_definitionsBelow _ _ _ _ ts]
      rfl
    · by_cases hfunction : (node n ts).isFunction = true
      · simp [hclass, hfunction, tree_functionDefinition, trees_definitionsBelow _ _ _ _ ts]
      · simp [hclass, hfunction, trees_definitionsBelow _ _ _ _ ts]

theorem trees_definitionsBelow (above : Tree) (scope : Option Scope) (address : Address) (i : Nat) :
    ∀ ts : List Tree, (definitionsBelow above scope address i ts).map (·.tree) =
      (subtreesBelow ts).filter fun u => u.isClass || u.isFunction
  | [] => rfl
  | t :: ts => by
    rw [definitionsBelow, subtreesBelow, List.map_append, List.filter_append,
      trees_definitionsIn _ _ _ t, trees_definitionsBelow above scope address (i + 1) ts]

end

end Tree

end CodeQuality.Source
