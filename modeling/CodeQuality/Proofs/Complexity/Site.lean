import CodeQuality.Proofs.Complexity.Region

/-!
# Sites of a syntax tree

A site is a place of a tree together with its address. Every address leads to one place at most
(`Tree.place?`), and the sites are exactly the places to which an address leads (`Tree.mem_sites`), in
document order.

`Tree.definitions_eq`: whether a node is a definition, and which, can be told from its site alone. The
search for definitions carries the class around what it visits; at a site this is the innermost class
or function above it, if that is a class (`Site.scope`).
-/

namespace CodeQuality.Source

/-- A place of a tree with its address. -/
structure Site extends Place where
  address : Address

namespace Place

/-- The place to which a way leads from a place. -/
def along (p : Place) : Address → Option Place
  | [] => some p
  | i :: way => p.tree.children[i]?.bind fun t => along ⟨t, p.tree :: p.above⟩ way

theorem along_concat (p : Place) (way : Address) (i : Nat) :
    p.along (way ++ [i]) =
      (p.along way).bind fun q => q.tree.children[i]?.map fun t => ⟨t, q.tree :: q.above⟩ := by
  induction way generalizing p with
  | nil =>
    rw [List.nil_append, along, along, Option.bind_some, Option.map_eq_bind]
    rfl
  | cons j way ih =>
    rw [List.cons_append, along, along, Option.bind_assoc]
    exact congrArg _ (funext fun t => ih ⟨t, p.tree :: p.above⟩)

end Place

namespace Tree

def place? (t : Tree) (address : Address) : Option Place := Place.along ⟨t, []⟩ address

theorem place?_eq_some_cons {t f a : Tree} {above : List Tree} {address : Address} :
    t.place? address = some ⟨f, a :: above⟩ ↔
      ∃ outer i, address = outer ++ [i] ∧ t.place? outer = some ⟨a, above⟩ ∧
        a.children[i]? = some f := by
  constructor
  · intro h
    rcases List.eq_nil_or_concat address with rfl | ⟨outer, i, rfl⟩
    · nomatch h
    · rw [List.concat_eq_append] at h ⊢
      rw [place?, Place.along_concat] at h
      obtain ⟨⟨b, rest⟩, hq, hchild⟩ := Option.bind_eq_some_iff.1 h
      obtain ⟨g, hg, heq⟩ := Option.map_eq_some_iff.1 hchild
      simp only [Place.mk.injEq, List.cons.injEq] at heq
      obtain ⟨rfl, rfl, rfl⟩ := heq
      exact ⟨outer, i, rfl, hq, hg⟩
  · rintro ⟨outer, i, rfl, houter, hchild⟩
    rw [place?, Place.along_concat, ← place?, houter, Option.bind_some, hchild]
    rfl

theorem length_of_place? {t f : Tree} {above : List Tree} {address : Address}
    (h : t.place? address = some ⟨f, above⟩) : address.length = above.length := by
  induction above generalizing f address with
  | nil =>
    rcases List.eq_nil_or_concat address with rfl | ⟨outer, i, rfl⟩
    · rfl
    · rw [List.concat_eq_append, place?, Place.along_concat] at h
      obtain ⟨q, -, hchild⟩ := Option.bind_eq_some_iff.1 h
      obtain ⟨g, -, heq⟩ := Option.map_eq_some_iff.1 hchild
      nomatch heq
  | cons a above ih =>
    obtain ⟨outer, i, rfl, houter, -⟩ := place?_eq_some_cons.1 h
    rw [List.length_append, ih houter, List.length_singleton, List.length_cons]

/-! ## The listing of the sites -/

mutual

/-- The sites in a tree at an address, below `above`. -/
def sitesIn (above : List Tree) (address : Address) : Tree → List Site
  | node n ts => ⟨⟨node n ts, above⟩, address⟩ :: sitesBelow (node n ts :: above) address 0 ts

/-- The sites in the children of the first of `above`, which is at `address`, from position `i` on. -/
def sitesBelow (above : List Tree) (address : Address) (i : Nat) : List Tree → List Site
  | [] => []
  | t :: ts => sitesIn above (address ++ [i]) t ++ sitesBelow above address (i + 1) ts

end

def sites (t : Tree) : List Site := sitesIn [] [] t

mutual

theorem mem_sitesIn {above : List Tree} {address : Address} {s : Site} : ∀ {t : Tree},
    s ∈ sitesIn above address t ↔
      ∃ way, s.address = address ++ way ∧ Place.along ⟨t, above⟩ way = some s.toPlace
  | node n ts => by
    rw [sitesIn, List.mem_cons, mem_sitesBelow]
    constructor
    · rintro (rfl | ⟨j, way, t, ht, haddress, halong⟩)
      · exact ⟨[], (List.append_nil _).symm, rfl⟩
      · exact ⟨(0 + j) :: way, haddress, by
          rw [Nat.zero_add, Place.along, show (node n ts).children[j]? = some t from ht]
          exact halong⟩
    · rintro ⟨_ | ⟨j, way⟩, haddress, halong⟩
      · obtain ⟨place, rest⟩ := s
        rw [List.append_nil] at haddress
        rw [Place.along, Option.some.injEq] at halong
        exact .inl (by simp_all)
      · obtain ⟨t, ht, halong⟩ := Option.bind_eq_some_iff.1 halong
        exact .inr ⟨j, way, t, ht, by rw [haddress, Nat.zero_add], halong⟩

theorem mem_sitesBelow {above : List Tree} {address : Address} {s : Site} : ∀ {i : Nat} {ts : List Tree},
    s ∈ sitesBelow above address i ts ↔
      ∃ j way t, ts[j]? = some t ∧ s.address = address ++ (i + j) :: way ∧
        Place.along ⟨t, above⟩ way = some s.toPlace
  | _, [] => by simp [sitesBelow]
  | i, t :: ts => by
    rw [sitesBelow, List.mem_append, mem_sitesIn, mem_sitesBelow]
    constructor
    · rintro (⟨way, haddress, halong⟩ | ⟨j, way, u, hu, haddress, halong⟩)
      · exact ⟨0, way, t, rfl, by rw [haddress, List.append_assoc]; rfl, halong⟩
      · exact ⟨j + 1, way, u, hu, by rw [haddress, Nat.add_right_comm, Nat.add_assoc], halong⟩
    · rintro ⟨_ | j, way, u, hu, haddress, halong⟩
      · obtain rfl := Option.some.inj hu
        exact .inl ⟨way, by rw [haddress, List.append_assoc]; rfl, halong⟩
      · exact .inr ⟨j, way, u, hu, by rw [haddress, Nat.add_right_comm, Nat.add_assoc], halong⟩

end

theorem mem_sites {t : Tree} {s : Site} : s ∈ t.sites ↔ t.place? s.address = some s.toPlace := by
  rw [sites, mem_sitesIn]
  constructor
  · rintro ⟨way, haddress, halong⟩
    rw [haddress]
    exact halong
  · intro h
    exact ⟨s.address, rfl, h⟩

end Tree

/-! ## Definitions at sites -/

/-- The class that directly holds what lies below the first of `above`, which is at `address`: the
innermost class or function, if that is a class. -/
def scopeBelow : List Tree → Address → Option Scope
  | [], _ => none
  | a :: above, address =>
    if a.isClass then some ⟨address, a.className⟩
    else if a.isFunction then none
    else scopeBelow above address.dropLast

namespace Site

/-- The class that directly holds a site. -/
def scope (s : Site) : Option Scope := scopeBelow s.above s.address.dropLast

def definition? (s : Site) : Option Definition :=
  if s.tree.isClass then some (Tree.classDefinition s.address s.tree)
  else if s.tree.isFunction then
    some (Tree.functionDefinition s.above.head? s.scope s.address s.tree)
  else none

theorem address_functionDefinition (above : Option Tree) (scope : Option Scope) (address : Address)
    (t : Tree) : (Tree.functionDefinition above scope address t).address = address := by
  simp only [Tree.functionDefinition]
  split <;> rfl

theorem definition?_eq_some {s : Site} {d : Definition} :
    s.definition? = some d ↔
      (s.tree.isClass = true ∧ d = Tree.classDefinition s.address s.tree) ∨
        (s.tree.isClass = false ∧ s.tree.isFunction = true ∧
          d = Tree.functionDefinition s.above.head? s.scope s.address s.tree) := by
  rw [definition?]
  cases s.tree.isClass <;> cases s.tree.isFunction <;> simp [eq_comm]

theorem address_of_definition? {s : Site} {d : Definition} (h : s.definition? = some d) :
    d.address = s.address := by
  rcases definition?_eq_some.1 h with ⟨-, rfl⟩ | ⟨-, -, rfl⟩
  · rfl
  · exact address_functionDefinition ..

end Site

namespace Tree

mutual

theorem definitionsIn_eq (above : List Tree) (address : Address) : ∀ t : Tree,
    definitionsIn above.head? (scopeBelow above address.dropLast) address t =
      (sitesIn above address t).filterMap Site.definition?
  | node n ts => by
    -- what the search carries into the children is the scope below the node
    have hbelow := definitionsBelow_eq (node n ts) above address 0 ts
    rw [scopeBelow] at hbelow
    rw [definitionsIn, sitesIn, List.filterMap_cons, ← hbelow, Site.definition?, Site.scope]
    split
    · rfl
    · split <;> rfl

theorem definitionsBelow_eq (a : Tree) (above : List Tree) (address : Address) (i : Nat) :
    ∀ ts : List Tree,
      definitionsBelow a (scopeBelow (a :: above) address) address i ts =
        (sitesBelow (a :: above) address i ts).filterMap Site.definition?
  | [] => rfl
  | t :: ts => by
    have ht := definitionsIn_eq (a :: above) (address ++ [i]) t
    rw [List.dropLast_concat] at ht
    rw [definitionsBelow, sitesBelow, List.filterMap_append, ← definitionsBelow_eq a above, ← ht]
    rfl

end

/-- The definitions of a tree are those at its sites, in order. -/
theorem definitions_eq (t : Tree) : t.definitions = t.sites.filterMap Site.definition? :=
  definitionsIn_eq [] [] t

theorem mem_definitions {t : Tree} {d : Definition} :
    d ∈ t.definitions ↔ ∃ s : Site, t.place? s.address = some s.toPlace ∧ s.definition? = some d := by
  simp only [definitions_eq, List.mem_filterMap, mem_sites]

theorem definition_unique {t : Tree} {d e : Definition} (hd : d ∈ t.definitions)
    (he : e ∈ t.definitions) (h : d.address = e.address) : d = e := by
  obtain ⟨⟨place, address⟩, hplace, hdefinition⟩ := mem_definitions.1 hd
  obtain ⟨⟨place', address'⟩, hplace', hdefinition'⟩ := mem_definitions.1 he
  obtain rfl : address = address' :=
    (Site.address_of_definition? hdefinition).symm.trans
      (h.trans (Site.address_of_definition? hdefinition'))
  obtain rfl : place = place' := Option.some.inj (hplace.symm.trans hplace')
  exact Option.some.inj (hdefinition.symm.trans hdefinition')

end Tree

end CodeQuality.Source
