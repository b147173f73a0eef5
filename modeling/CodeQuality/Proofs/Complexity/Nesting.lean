import CodeQuality.Proofs.Complexity.DocumentOrder
import CodeQuality.Proofs.Complexity.Frontier
import Mathlib.Data.UInt

/-!
# Cognitive complexity by depth of nesting

`Tree.cognitive_by_depth`: the cognitive complexity of a tree is the sum, over the nodes that are
reached from its root without entering a function, of what each of them weighs at its depth. The depth
counts the steps on the way down that leave a choice through a branch, or a loop, a selection or a
handler through its body. The root is not entered, so that it may be a function itself.

`Reaches` says this step by step and `visits` lists it. A node is visited once, since a visit is a site
of the tree and no two sites share an address (`sites_ordered`). The sum may be collected in any order
as well, by a walk that keeps the trees it has met in a frontier (`Pending.collects_iff`). It is kept in
32 bits, so that it is told modulo `2 ^ 32`, and exactly where it is smaller.
-/

namespace CodeQuality.Source

/-- The kinds of loops. -/
def loopKinds : List String :=
  ["for_statement", "for_in_statement", "for_of_statement", "while_statement", "do_statement"]

/-- The kinds of nodes whose body stands one deeper. -/
def bodiedKinds : List String := loopKinds ++ ["switch_statement", "catch_clause"]

namespace Tree

/-! ## Weights and depths -/

/-- The step from `a` down to `t` leaves a choice through a branch, or another construct that nests
through its body. -/
def Nests (a t : Tree) : Prop :=
  a.root.kind = "if_statement" ∧
      (t.root.field = some "consequence" ∨ t.root.field = some "alternative") ∨
    a.root.kind ∈ bodiedKinds ∧ t.root.field = some "body"

instance (a t : Tree) : Decidable (Nests a t) := inferInstanceAs (Decidable (_ ∨ _))

/-- What a node weighs at a depth. -/
def weight (depth : Nat) (m : Tree) : Nat :=
  if m.root.kind = "if_statement" ∨ m.root.kind ∈ bodiedKinds then 1 + depth
  else if m.root.kind = "ternary_expression" then 1 + depth
  else if m.root.kind = "binary_expression" ∧
      ∃ op ∈ m.field? "operator", op.root.text = "&&" ∨ op.root.text = "||" then 1
  else 0

theorem isLogical_iff (m : Tree) :
    m.isLogical = true ↔ ∃ op ∈ m.field? "operator", op.root.text = "&&" ∨ op.root.text = "||" := by
  simp [isLogical, Option.any_eq_true]

theorem not_mem_bodiedKinds : "if_statement" ∉ bodiedKinds ∧ "ternary_expression" ∉ bodiedKinds ∧
    "binary_expression" ∉ bodiedKinds := by decide

theorem construct_cases (m : Tree) :
    m.root.kind = "if_statement" ∧ m.construct = .choice ∨
      m.root.kind ∈ bodiedKinds ∧
        (m.construct = .loop ∨ m.construct = .selection ∨ m.construct = .handler) ∨
      m.root.kind = "ternary_expression" ∧ m.construct = .conditional ∨
      m.root.kind = "binary_expression" ∧ m.construct = .operation ∨
      (m.root.kind ≠ "if_statement" ∧ m.root.kind ∉ bodiedKinds ∧
        m.root.kind ≠ "ternary_expression" ∧ m.root.kind ≠ "binary_expression") ∧
        (m.construct = .selectionCase ∨ m.construct = .plain) := by
  unfold construct Construct.ofKind
  split <;> simp_all [bodiedKinds, loopKinds]

theorem effort_eq_weight (depth : Nat) (m : Tree) : m.effort depth = m.weight depth := by
  unfold effort weight
  simp only [← isLogical_iff]
  rcases m.construct_cases with
    ⟨hkind, h⟩ | ⟨hkind, h | h | h⟩ | ⟨hkind, h⟩ | ⟨hkind, h⟩ | ⟨hkind, h | h⟩ <;>
    simp [h, hkind, not_mem_bodiedKinds]

theorem deepens_iff (a t : Tree) : Place.deepens a t = true ↔ Nests a t := by
  unfold Place.deepens Nests
  rcases a.construct_cases with
    ⟨hkind, h⟩ | ⟨hkind, hbody⟩ | ⟨hkind, h⟩ | ⟨hkind, h⟩ | ⟨hkind, h | h⟩
  · cases t.root.field <;> simp [h, hkind, not_mem_bodiedKinds, Construct.nestedFields]
  · have hnot : a.root.kind ≠ "if_statement" := fun hif => not_mem_bodiedKinds.1 (hif ▸ hkind)
    rcases hbody with h | h | h <;>
      cases t.root.field <;> simp [h, hkind, hnot, Construct.nestedFields]
  all_goals
    cases t.root.field <;> simp [h, hkind, not_mem_bodiedKinds, Construct.nestedFields]

/-! ## Visits -/

/-- A node on a walk down from the root of a tree, with the steps of the way to it that nest. -/
structure Visit where
  way : Address
  depth : Nat
  tree : Tree

def Visit.weight (v : Visit) : Nat := v.tree.weight v.depth

/-- The depth of `t`, a child of `a`, which stands at a depth. -/
def depthUnder (depth : Nat) (a t : Tree) : Nat := if Nests a t then depth + 1 else depth

/-- The nodes that are reached from the root of `n` by steps to children that are no functions. -/
inductive Reaches (n : Tree) : Visit → Prop
  | root : Reaches n ⟨[], 0, n⟩
  | child {v : Visit} {i : Nat} {t : Tree} (reached : Reaches n v)
      (child : v.tree.children[i]? = some t) (isFunction : t.isFunction = false) :
      Reaches n ⟨v.way ++ [i], depthUnder v.depth v.tree t, t⟩

mutual

def visitsFrom (way : Address) (depth : Nat) : Tree → List Visit
  | node n ts => ⟨way, depth, node n ts⟩ :: visitsBelow (node n ts) way depth 0 ts

def visitsBelow (a : Tree) (way : Address) (depth i : Nat) : List Tree → List Visit
  | [] => []
  | t :: ts =>
    (if t.isFunction then [] else visitsFrom (way ++ [i]) (depthUnder depth a t) t) ++
      visitsBelow a way depth (i + 1) ts

end

/-- The nodes that are reached from the root, in document order. -/
def visits (n : Tree) : List Visit := visitsFrom [] 0 n

theorem self_mem_visitsFrom (way : Address) (depth : Nat) (t : Tree) :
    ⟨way, depth, t⟩ ∈ visitsFrom way depth t := by
  cases t
  rw [visitsFrom]
  exact List.mem_cons_self

theorem mem_visitsBelow {a : Tree} {way : Address} {depth i : Nat} {v : Visit} {ts : List Tree} :
    v ∈ visitsBelow a way depth i ts ↔
      ∃ j t, ts[j]? = some t ∧ t.isFunction = false ∧
        v ∈ visitsFrom (way ++ [i + j]) (depthUnder depth a t) t := by
  induction ts generalizing i with
  | nil => simp [visitsBelow]
  | cons t ts ih =>
    rw [visitsBelow, List.mem_append, ih]
    constructor
    · rintro (hv | ⟨j, u, hu, hfunction, hv⟩)
      · cases hfunction : t.isFunction with
        | true => simp [hfunction] at hv
        | false => exact ⟨0, t, rfl, hfunction, by simpa [hfunction] using hv⟩
      · refine ⟨j + 1, u, hu, hfunction, ?_⟩
        rwa [Nat.add_right_comm, Nat.add_assoc] at hv
    · rintro ⟨_ | j, u, hu, hfunction, hv⟩
      · obtain rfl := Option.some.inj hu
        exact .inl (by simpa [hfunction] using hv)
      · refine .inr ⟨j, u, hu, hfunction, ?_⟩
        rwa [Nat.add_right_comm, Nat.add_assoc]

mutual

theorem reaches_of_mem {n : Tree} {way : Address} {depth : Nat} {v : Visit} :
    ∀ {t : Tree}, n.Reaches ⟨way, depth, t⟩ → v ∈ visitsFrom way depth t → n.Reaches v
  | node m ts, hroot, hv => by
    rw [visitsFrom] at hv
    rcases List.mem_cons.1 hv with rfl | hv
    · exact hroot
    · exact reaches_of_memBelow hroot (fun j => by rw [Nat.zero_add]; rfl) hv

theorem reaches_of_memBelow {n a : Tree} {way : Address} {depth i : Nat} {v : Visit} :
    ∀ {ts : List Tree}, n.Reaches ⟨way, depth, a⟩ → (∀ j, a.children[i + j]? = ts[j]?) →
      v ∈ visitsBelow a way depth i ts → n.Reaches v
  | [], _, _, hv => by simp [visitsBelow] at hv
  | t :: ts, hroot, hchildren, hv => by
    rw [visitsBelow, List.mem_append] at hv
    rcases hv with hv | hv
    · cases hfunction : t.isFunction with
      | true => simp [hfunction] at hv
      | false =>
        rw [hfunction] at hv
        exact reaches_of_mem (.child hroot (hchildren 0) hfunction) hv
    · refine reaches_of_memBelow hroot (fun j => ?_) hv
      rw [Nat.add_assoc, Nat.add_comm 1 j]
      exact hchildren (j + 1)

end

mutual

theorem child_mem_visitsFrom {way : Address} {depth i : Nat} {v : Visit} {c : Tree}
    (hchild : v.tree.children[i]? = some c) (hfunction : c.isFunction = false) :
    ∀ {t : Tree}, v ∈ visitsFrom way depth t →
      ⟨v.way ++ [i], depthUnder v.depth v.tree c, c⟩ ∈ visitsFrom way depth t
  | node n ts, hv => by
    rw [visitsFrom] at hv ⊢
    rcases List.mem_cons.1 hv with rfl | hv
    · refine List.mem_cons_of_mem _ (mem_visitsBelow.2 ⟨i, c, hchild, hfunction, ?_⟩)
      rw [Nat.zero_add]
      exact self_mem_visitsFrom ..
    · exact List.mem_cons_of_mem _ (child_mem_visitsBelow hchild hfunction hv)

theorem child_mem_visitsBelow {a : Tree} {way : Address} {depth i k : Nat} {v : Visit} {c : Tree}
    (hchild : v.tree.children[i]? = some c) (hfunction : c.isFunction = false) :
    ∀ {ts : List Tree}, v ∈ visitsBelow a way depth k ts →
      ⟨v.way ++ [i], depthUnder v.depth v.tree c, c⟩ ∈ visitsBelow a way depth k ts
  | [], hv => by simp [visitsBelow] at hv
  | t :: ts, hv => by
    rw [visitsBelow, List.mem_append] at hv ⊢
    rcases hv with hv | hv
    · cases hskip : t.isFunction with
      | true => simp [hskip] at hv
      | false =>
        rw [hskip] at hv
        exact .inl (child_mem_visitsFrom hchild hfunction hv)
    · exact .inr (child_mem_visitsBelow hchild hfunction hv)

end

theorem mem_visits {n : Tree} {v : Visit} : v ∈ n.visits ↔ n.Reaches v := by
  constructor
  · exact reaches_of_mem .root
  · intro h
    induction h with
    | root => exact self_mem_visitsFrom [] 0 n
    | child _ hchild hfunction ih => exact child_mem_visitsFrom hchild hfunction ih

mutual

theorem ways_sublist (above : List Tree) (way : Address) (depth : Nat) : ∀ t : Tree,
    ((visitsFrom way depth t).map (·.way)).Sublist ((sitesIn above way t).map (·.address))
  | node n ts => by
    rw [visitsFrom, sitesIn, List.map_cons, List.map_cons]
    exact (waysBelow_sublist _ _ way depth 0 ts).cons_cons way

theorem waysBelow_sublist (a : Tree) (above : List Tree) (way : Address) (depth i : Nat) :
    ∀ ts : List Tree, ((visitsBelow a way depth i ts).map (·.way)).Sublist
      ((sitesBelow above way i ts).map (·.address))
  | [] => .slnil
  | t :: ts => by
    rw [visitsBelow, sitesBelow, List.map_append, List.map_append]
    refine .append ?_ (waysBelow_sublist a above way depth (i + 1) ts)
    split
    · exact List.nil_sublist _
    · exact ways_sublist above _ _ t

end

theorem nodup_ways (n : Tree) : (n.visits.map (·.way)).Nodup := by
  have hsites : (n.sites.map (·.address)).Nodup :=
    List.pairwise_map.2 (n.sites_ordered.imp Before.ne)
  exact hsites.sublist (ways_sublist [] [] 0 n)

/-! ## Sums over visits -/

theorem depthBelow_eq_depthUnder (a t : Tree) (depth : Nat) :
    depthBelow a.construct depth t = depthUnder depth a t := by
  rw [Place.depthBelow_eq, depthUnder]
  simp only [deepens_iff]
  split <;> rfl

mutual

theorem efforts_eq_visits (way : Address) (depth : Nat) : ∀ t : Tree,
    t.efforts depth = .ofNat (totalCount ((visitsFrom way depth t).map Visit.weight))
  | node n ts => by
    have hbelow := effortsBelow_eq_visits (node n ts) way depth 0 ts
    rw [efforts_eq_below, visitsFrom, List.map_cons, totalCount_cons, effort_eq_weight,
      UInt32.ofNat_add]
    exact congrArg _ hbelow

theorem effortsBelow_eq_visits (a : Tree) (way : Address) (depth i : Nat) : ∀ ts : List Tree,
    effortsBelow a.construct depth ts =
      .ofNat (totalCount ((visitsBelow a way depth i ts).map Visit.weight))
  | [] => rfl
  | t :: ts => by
    rw [effortsBelow, visitsBelow, List.map_append, totalCount_append, UInt32.ofNat_add,
      effortsBelow_eq_visits a way depth (i + 1) ts, depthBelow_eq_depthUnder]
    split
    · rfl
    · rw [efforts_eq_visits (way ++ [i]) _ t]

end

theorem effortsBelow_eq (a : Tree) (depth : Nat) (ts : List Tree) :
    effortsBelow a.construct depth ts =
      (ts.map fun t => if t.isFunction then 0 else t.efforts (depthUnder depth a t)).sum := by
  induction ts with
  | nil => rfl
  | cons t ts ih => rw [effortsBelow, ih, depthBelow_eq_depthUnder, List.map_cons, List.sum_cons]

theorem cognitive_eq_visits (n : Tree) :
    n.cognitive = totalCount (n.visits.map Visit.weight) % UInt32.size := by
  rw [cognitive, efforts_eq_visits [] 0 n]
  exact UInt32.toNat_ofNat'

/-! ## Walks -/

/-- A tree that a walk has met, at its depth. -/
structure Pending where
  isRoot : Bool
  depth : Nat
  tree : Tree

namespace Pending

/-- A function is passed over, unless the walk starts from it. -/
def passed (p : Pending) : Bool := !p.isRoot && p.tree.isFunction

def cost (p : Pending) : UInt32 := if p.passed then 0 else .ofNat (p.tree.weight p.depth)

def opened (p : Pending) : List Pending :=
  if p.passed then []
  else p.tree.children.map fun t => ⟨false, depthUnder p.depth p.tree t, t⟩

def total (p : Pending) : UInt32 := if p.passed then 0 else p.tree.efforts p.depth

def size (p : Pending) : Nat := p.tree.subtrees.length

theorem total_eq (p : Pending) : p.total = p.cost + Frontier.owed total p.opened := by
  unfold total cost opened
  split
  · rfl
  · rw [efforts_eq_below, effort_eq_weight, effortsBelow_eq, Frontier.owed, List.map_map]
    rfl

theorem owed_size_opened (p : Pending) : Frontier.owed size p.opened < p.size := by
  rw [size, length_subtrees, opened]
  split
  · exact Nat.succ_pos _
  · rw [Frontier.owed, List.map_map]
    exact Nat.lt_succ_self _

theorem collects_iff (n : Tree) (sum : UInt32) :
    Frontier.Collects cost opened [⟨true, 0, n⟩] sum ↔ sum.toNat = n.cognitive := by
  have howed : Frontier.owed total [⟨true, 0, n⟩] = n.efforts 0 := by
    rw [Frontier.owed_cons]
    exact add_zero _
  rw [Frontier.collects_iff total_eq owed_size_opened, howed, cognitive, UInt32.toNat_inj]

end Pending

/-- **Cognitive complexity in closed form.** The visits are exactly the nodes that are reached from the
root without entering a function, each once, with the number of steps on the way that nest. The cognitive
complexity is the sum of what they weigh, modulo `2 ^ 32`, and the sum itself if it is smaller. A walk
collects this in a register of 32 bits in whatever order it visits what it has met. -/
theorem cognitive_by_depth (n : Tree) :
    (∀ v, v ∈ n.visits ↔ n.Reaches v) ∧ (n.visits.map (·.way)).Nodup ∧
      n.cognitive = totalCount (n.visits.map Visit.weight) % UInt32.size ∧
      (totalCount (n.visits.map Visit.weight) < UInt32.size →
        n.cognitive = totalCount (n.visits.map Visit.weight)) ∧
      ∀ sum : UInt32, Frontier.Collects Pending.cost Pending.opened [⟨true, 0, n⟩] sum ↔
        sum.toNat = n.cognitive := by
  have hsum := n.cognitive_eq_visits
  refine ⟨fun _ => mem_visits, n.nodup_ways, hsum, fun hroom => ?_, Pending.collects_iff n⟩
  rw [hsum, Nat.mod_eq_of_lt hroom]

/-- A function whose choice has a conditional in front and a loop in a branch, with a function inside
the loop. -/
def functionInLoop : Tree :=
  let node (kind field : String) (children : List Tree) : Tree :=
    .node ⟨kind, true, some field, "", 0, 0⟩ children
  node "function_declaration" "" [node "if_statement" ""
    [node "ternary_expression" "condition" [], node "else_clause" "alternative"
      [node "while_statement" "" [node "arrow_function" "body" [node "if_statement" "" []]]]]]

theorem cognitive_by_depth_functionInLoop :
    totalCount (functionInLoop.visits.map Visit.weight) < UInt32.size ∧
      functionInLoop.cognitive = totalCount (functionInLoop.visits.map Visit.weight) := by
  have hroom : totalCount (functionInLoop.visits.map Visit.weight) < UInt32.size := by decide
  exact ⟨hroom, (cognitive_by_depth functionInLoop).2.2.2.1 hroom⟩

/-- The conditional stands outside of the choice, and the inner function is not entered. -/
example : functionInLoop.visits.map (fun v => (v.depth, v.weight)) =
    [(0, 0), (0, 1), (0, 1), (1, 0), (1, 2)] ∧ functionInLoop.cognitive = 4 := by decide

end Tree

end CodeQuality.Source
