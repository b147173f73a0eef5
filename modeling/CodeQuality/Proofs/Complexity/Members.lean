import CodeQuality.Proofs.Complexity.Conservation

/-!
# The members of a class, found by a walk

A class is measured by the definitions that name its address as their owner.
`Tree.trees_membersIn`: these are the functions that a walk through the class meets before it enters
another class or a function, as far as they are members where they stand. The walk knows no addresses,
so that what it finds can be compared between trees whose addresses differ.

The addresses of the definitions in a tree all begin with the address of the tree
(`Tree.address_definitionsIn`). So a class that lies elsewhere owns in a tree what the scope at its root
gives it (`Tree.owned_outside`), and nothing if the scope is another class.
-/

namespace CodeQuality.Source.Tree

mutual

/-- The members of the class around a tree below `above`, classes and functions inside it left out. -/
def membersFrom (above : Option Tree) : Tree → List Tree
  | node n ts =>
    let t := node n ts
    if t.isClass then []
    else if t.isFunction then if t.isMember above then [t] else []
    else membersBelow t ts

/-- The members of the class around the children of `above`. -/
def membersBelow (above : Tree) : List Tree → List Tree
  | [] => []
  | t :: ts => membersFrom (some above) t ++ membersBelow above ts

end

/-! ## Addresses -/

theorem address_functionDefinition (above : Option Tree) (scope : Option Scope) (address : Address)
    (t : Tree) : (functionDefinition above scope address t).address = address := by
  unfold functionDefinition
  split <;> rfl

theorem kind_functionDefinition_ne (above : Option Tree) (scope : Option Scope) (address : Address)
    (t : Tree) : (functionDefinition above scope address t).kind ≠ .class := by
  unfold functionDefinition
  split <;> simp

theorem branch_unique {address c : Address} {i j : Nat} (hi : address ++ [i] <+: c)
    (hj : address ++ [j] <+: c) : i = j := by
  have hle : (address ++ [i]).length ≤ (address ++ [j]).length := by simp
  have hprefix := List.prefix_of_prefix_length_le hi hj hle
  have heq := hprefix.eq_of_length (by simp)
  simpa using heq

theorem not_branch_prefix (address : Address) (i : Nat) : ¬ address ++ [i] <+: address := by
  intro h
  have hlength := h.length_le
  rw [List.length_append, List.length_singleton] at hlength
  omega

mutual

theorem address_definitionsIn {above : Option Tree} {scope : Option Scope} {address : Address}
    {d : Definition} : ∀ {t : Tree}, d ∈ definitionsIn above scope address t → address <+: d.address
  | node n ts, h => by
    have below : ∀ {scope : Option Scope}, d ∈ definitionsBelow (node n ts) scope address 0 ts →
        address <+: d.address := by
      intro scope hd
      obtain ⟨j, -, hj⟩ := address_definitionsBelow hd
      exact (List.prefix_append _ _).trans hj
    rw [definitionsIn] at h
    split at h
    · rcases List.mem_cons.1 h with rfl | h
      · exact List.prefix_refl _
      · exact below h
    · split at h
      · rcases List.mem_cons.1 h with rfl | h
        · simp [address_functionDefinition]
        · exact below h
      · exact below h

theorem address_definitionsBelow {a : Tree} {scope : Option Scope} {address : Address} {i : Nat}
    {d : Definition} : ∀ {ts : List Tree}, d ∈ definitionsBelow a scope address i ts →
      ∃ j, i ≤ j ∧ address ++ [j] <+: d.address
  | [], h => by simp [definitionsBelow] at h
  | t :: ts, h => by
    rw [definitionsBelow, List.mem_append] at h
    rcases h with h | h
    · exact ⟨i, Nat.le_refl i, address_definitionsIn h⟩
    · obtain ⟨j, hj, haddress⟩ := address_definitionsBelow h
      exact ⟨j, by omega, haddress⟩

end

/-! ## What a class owns -/

/-- The trees of the definitions that name `c` as their owner. -/
def owned (c : Address) (ds : List Definition) : List Tree :=
  (ds.filter fun d => d.owner == some c).map (·.tree)

theorem owned_append (c : Address) (ds es : List Definition) :
    owned c (ds ++ es) = owned c ds ++ owned c es := by
  rw [owned, List.filter_append, List.map_append, owned, owned]

theorem owned_classDefinition_cons (c address : Address) (t : Tree) (ds : List Definition) :
    owned c (classDefinition address t :: ds) = owned c ds := rfl

theorem owned_functionDefinition_cons (c : Address) (above : Option Tree) (scope : Option Scope)
    (address : Address) (t : Tree) (ds : List Definition) :
    owned c (functionDefinition above scope address t :: ds) =
      (if scope.map (·.address) = some c ∧ t.isMember above = true then [t] else []) ++
        owned c ds := by
  have htree := tree_functionDefinition above scope address t
  unfold functionDefinition at htree ⊢
  cases scope with
  | none => simp [owned]
  | some s =>
    cases hmember : t.isMember above with
    | false => simp [owned, Option.filter]
    | true =>
      by_cases hs : s.address = c
      · simp [owned, Option.filter, hs]
      · simp [owned, Option.filter, hs]

mutual

/-- A class that does not lie inside a tree owns there the members that the scope gives it. -/
theorem owned_outside {c : Address} {above : Option Tree} {scope : Option Scope} {address : Address} :
    ∀ {t : Tree}, ¬ address <+: c →
      owned c (definitionsIn above scope address t) =
        if scope.map (·.address) = some c then membersFrom above t else []
  | node n ts, h => by
    have hbelow : ∀ j, 0 ≤ j → ¬ address ++ [j] <+: c := by
      intro j _ hj
      exact h ((List.prefix_append _ _).trans hj)
    rw [definitionsIn, membersFrom]
    split
    · -- inside a class everything has that class as its scope
      have hne : address ≠ c := by
        rintro rfl
        exact h (List.prefix_refl _)
      rw [owned_classDefinition_cons, owned_outsideBelow hbelow]
      simp [hne]
    · split
      · rw [owned_functionDefinition_cons, owned_outsideBelow hbelow]
        by_cases hs : scope.map (·.address) = some c
        · simp [hs]
        · simp [hs]
      · exact owned_outsideBelow hbelow

theorem owned_outsideBelow {c : Address} {a : Tree} {scope : Option Scope} {address : Address}
    {i : Nat} : ∀ {ts : List Tree}, (∀ j, i ≤ j → ¬ address ++ [j] <+: c) →
      owned c (definitionsBelow a scope address i ts) =
        if scope.map (·.address) = some c then membersBelow a ts else []
  | [], _ => by simp [definitionsBelow, membersBelow, owned]
  | t :: ts, h => by
    have hts := fun j (hj : i + 1 ≤ j) => h j (by omega)
    rw [definitionsBelow, membersBelow, owned_append, owned_outside (h i (Nat.le_refl i)),
      owned_outsideBelow hts]
    split <;> simp

end

mutual

theorem owned_classIn {above : Option Tree} {scope : Option Scope} {address : Address}
    {d : Definition} : ∀ {t : Tree}, (∀ s ∈ scope, ¬ address <+: s.address) →
      d ∈ definitionsIn above scope address t → d.kind = .class →
        owned d.address (definitionsIn above scope address t) = membersBelow d.tree d.tree.children
  | node n ts, hscope, hd, hkind => by
    rw [definitionsIn] at hd ⊢
    have hbelow : ∀ s ∈ scope, ∀ j, ¬ address ++ [j] <+: s.address := by
      intro s hs j hj
      exact hscope s hs ((List.prefix_append _ _).trans hj)
    split
    · rename_i hclass
      rw [if_pos hclass] at hd
      have hself : ∀ j, ¬ address ++ [j] <+: address := not_branch_prefix address
      rw [owned_classDefinition_cons]
      rcases List.mem_cons.1 hd with rfl | hd
      · -- the class at the root
        show owned address _ = _
        rw [owned_outsideBelow fun j _ => hself j]
        exact if_pos rfl
      · exact owned_classBelow (by simpa using hself) hd hkind
    · rename_i hclass
      rw [if_neg hclass] at hd
      split
      · rename_i hfunction
        rw [if_pos hfunction] at hd
        rcases List.mem_cons.1 hd with rfl | hd
        · exact (kind_functionDefinition_ne _ _ _ _ hkind).elim
        · -- the scope of the function is a class further out
          have hne : scope.map (·.address) ≠ some d.address := by
            intro heq
            obtain ⟨s, hs, haddress⟩ := Option.map_eq_some_iff.1 heq
            obtain ⟨j, -, hj⟩ := address_definitionsBelow hd
            exact hbelow s hs j (haddress ▸ hj)
          rw [owned_functionDefinition_cons, owned_classBelow (by simp) hd hkind]
          simp [hne]
      · rename_i hfunction
        rw [if_neg hfunction] at hd
        exact owned_classBelow hbelow hd hkind

theorem owned_classBelow {a : Tree} {scope : Option Scope} {address : Address} {i : Nat}
    {d : Definition} : ∀ {ts : List Tree}, (∀ s ∈ scope, ∀ j, ¬ address ++ [j] <+: s.address) →
      d ∈ definitionsBelow a scope address i ts → d.kind = .class →
        owned d.address (definitionsBelow a scope address i ts) =
          membersBelow d.tree d.tree.children
  | [], _, hd, _ => by simp [definitionsBelow] at hd
  | t :: ts, hscope, hd, hkind => by
    have hne : ∀ j, address ++ [j] <+: d.address → scope.map (·.address) ≠ some d.address := by
      intro j hj heq
      obtain ⟨s, hs, haddress⟩ := Option.map_eq_some_iff.1 heq
      exact hscope s hs j (haddress ▸ hj)
    rw [definitionsBelow, List.mem_append] at hd
    rw [definitionsBelow, owned_append]
    rcases hd with hd | hd
    · -- the branches behind that of the class own nothing of it
      have haddress := address_definitionsIn hd
      have hothers : ∀ j, i + 1 ≤ j → ¬ address ++ [j] <+: d.address := by
        intro j hj hprefix
        have := branch_unique haddress hprefix
        omega
      rw [owned_classIn (fun s hs => hscope s hs i) hd hkind, owned_outsideBelow hothers,
        if_neg (hne i haddress), List.append_nil]
    · obtain ⟨j, hj, haddress⟩ := address_definitionsBelow hd
      have hother : ¬ address ++ [i] <+: d.address := by
        intro hprefix
        have := branch_unique haddress hprefix
        omega
      rw [owned_outside hother, if_neg (hne j haddress), List.nil_append,
        owned_classBelow hscope hd hkind]

end

/-- What a class is measured by are the members that a walk through it meets, in document order. -/
theorem trees_membersIn {t : Tree} {d : Definition} (hd : d ∈ t.definitions) (hkind : d.kind = .class) :
    (d.membersIn t.definitions).map (·.tree) = membersBelow d.tree d.tree.children :=
  owned_classIn (by simp) hd hkind

end CodeQuality.Source.Tree
