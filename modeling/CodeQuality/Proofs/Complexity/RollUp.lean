import CodeQuality.Proofs.Complexity.DocumentOrder
import Mathlib.Algebra.BigOperators.Group.List.Basic
import Mathlib.Algebra.Order.BigOperators.Group.List
import Mathlib.Algebra.Order.Group.Nat
import Mathlib.Data.List.Nodup

/-!
# Classes roll up their methods

`FileMeasurement.classes_roll_up`: the measurements of the methods of a file are divided among its
classes. A method is owned by one class, which stands before it (`Tree.exists_owner`), and no two
classes share an address, so that the sums over the classes are the sums over the methods
(`totalCount_fibers`). A class without methods counts one, since a cyclomatic complexity is at least
one. Cognitive complexities are summed up in 32 bits: their sums agree modulo `2 ^ 32`, and exactly if
there is room for that of all functions and methods together.
-/

namespace CodeQuality

open Source

/-! ## Sums by a key -/

section fibers

variable {τ κ : Type}

theorem totalCount_map_add (f g : τ → Nat) (xs : List τ) :
    totalCount (xs.map fun x => f x + g x) = totalCount (xs.map f) + totalCount (xs.map g) :=
  List.sum_map_add

theorem totalCount_map_ite (p : τ → Bool) (n : Nat) (xs : List τ) :
    totalCount (xs.map fun x => if p x then n else 0) = xs.countP p * n := by
  induction xs with
  | nil => simp
  | cons x xs ih =>
    rw [List.map_cons, totalCount_cons, ih, List.countP_cons]
    split
    · rw [Nat.add_mul, Nat.one_mul, Nat.add_comm]
    · rw [Nat.zero_add, Nat.add_zero]

theorem totalCount_filter_cons (p : τ → Bool) (f : τ → Nat) (x : τ) (xs : List τ) :
    totalCount (((x :: xs).filter p).map f) =
      (if p x then f x else 0) + totalCount ((xs.filter p).map f) := by
  rw [List.filter_cons]
  split
  · rw [List.map_cons, totalCount_cons]
  · rw [Nat.zero_add]

/-- A sum is divided by the keys of what is summed up. -/
theorem totalCount_fibers [BEq κ] [LawfulBEq κ] {key : τ → κ} {keys : List κ} (hnodup : keys.Nodup)
    (f : τ → Nat) {xs : List τ} (hkeys : ∀ x ∈ xs, key x ∈ keys) :
    totalCount (keys.map fun k => totalCount ((xs.filter (key · == k)).map f)) =
      totalCount (xs.map f) := by
  induction xs with
  | nil =>
    have hzero := totalCount_map_ite (fun _ => false) 0 keys
    simpa using hzero
  | cons x xs ih =>
    obtain ⟨hkey, hrest⟩ := List.forall_mem_cons.1 hkeys
    have hone : keys.countP (key x == ·) = 1 := by
      have hcount := List.count_eq_one_of_mem hnodup hkey
      rw [List.count] at hcount
      rw [← hcount]
      exact List.countP_congr fun k _ => by rw [beq_iff_eq, beq_iff_eq, eq_comm]
    simp only [totalCount_filter_cons]
    rw [totalCount_map_add, totalCount_map_ite, hone, Nat.one_mul, ih hrest, List.map_cons,
      totalCount_cons]

theorem totalCount_map_le {xs ys : List τ} (h : xs.Sublist ys) (f : τ → Nat) :
    totalCount (xs.map f) ≤ totalCount (ys.map f) :=
  (h.map f).sum_le_sum fun _ _ => Nat.zero_le _

end fibers

/-! ## Owners -/

namespace Source.Tree

variable {t : Tree} {c p : Address} {cls : Place} {f : Tree} {between : List Tree}
  {d e : Definition} {i j : Nat}

theorem LiesAbove.before (h : t.LiesAbove c p cls f between) : Before c p := by
  obtain ⟨way, rfl⟩ := h.below
  cases way with
  | nil =>
    have houter := length_of_place? h.outer
    have hinner := length_of_place? h.inner
    rw [List.append_nil, houter, List.length_append, List.length_cons] at hinner
    omega
  | cons i way => exact .below c i way

/-- A method is owned by a class, which stands before it. -/
theorem exists_owner (hd : d ∈ t.definitions) (hmethod : d.kind = .method) :
    ∃ e ∈ t.definitions, e.kind = .class ∧ d.owner = some e.address ∧
      Before e.address d.address := by
  cases mem_definitions_iff.1 hd with
  | ofClass => cases hmethod
  | ofFunction => cases hmethod
  | ofMethod encloses isFunction isMember =>
    exact ⟨_, mem_definitions_iff.2 (.ofClass encloses.outer encloses.isClass), rfl, rfl,
      encloses.before⟩

theorem owner_eq_none (hd : d ∈ t.definitions) (hkind : d.kind ≠ .method) : d.owner = none := by
  cases howner : d.owner with
  | none => rfl
  | some c => exact absurd (kind_of_owner hd howner) hkind

theorem before_of_lt (he : t.definitions[i]? = some e) (hd : t.definitions[j]? = some d)
    (hlt : i < j) : Before e.address d.address := by
  obtain ⟨hi, rfl⟩ := List.getElem?_eq_some_iff.1 he
  obtain ⟨hj, rfl⟩ := List.getElem?_eq_some_iff.1 hd
  exact List.pairwise_iff_getElem.1 t.definitions_ordered i j hi hj hlt

theorem position_lt (he : t.definitions[i]? = some e) (hd : t.definitions[j]? = some d)
    (hbefore : Before e.address d.address) : i < j := by
  rcases Nat.lt_trichotomy i j with hlt | rfl | hgt
  · exact hlt
  · obtain rfl := Option.some.inj (he.symm.trans hd)
    exact absurd rfl hbefore.ne
  · exact absurd (before_of_lt hd he hgt) hbefore.asymm

theorem position_unique (he : t.definitions[i]? = some e) (hd : t.definitions[j]? = some d)
    (haddress : e.address = d.address) : i = j := by
  rcases Nat.lt_trichotomy i j with hlt | heq | hgt
  · exact absurd haddress (before_of_lt he hd hlt).ne
  · exact heq
  · exact absurd haddress.symm (before_of_lt hd he hgt).ne

/-- The classes among the definitions. -/
def classDefinitions (t : Tree) : List Definition := t.definitions.filter (·.kind == .class)

/-- The methods among the definitions. -/
def methodDefinitions (t : Tree) : List Definition := t.definitions.filter (·.kind == .method)

theorem mem_classDefinitions : d ∈ t.classDefinitions ↔ d ∈ t.definitions ∧ d.kind = .class := by
  rw [classDefinitions, List.mem_filter, beq_iff_eq]

theorem mem_methodDefinitions : d ∈ t.methodDefinitions ↔ d ∈ t.definitions ∧ d.kind = .method := by
  rw [methodDefinitions, List.mem_filter, beq_iff_eq]

theorem membersIn_eq (c : Definition) :
    c.membersIn t.definitions = t.methodDefinitions.filter (·.owner == some c.address) := by
  rw [Definition.membersIn, methodDefinitions, List.filter_filter]
  refine List.filter_congr fun m hm => ?_
  cases howner : m.owner == some c.address with
  | false => rfl
  | true => rw [kind_of_owner hm (beq_iff_eq.1 howner)]; rfl

theorem sum_members (t : Tree) (f : Definition → Nat) :
    totalCount (t.classDefinitions.map fun c => totalCount ((c.membersIn t.definitions).map f)) =
      totalCount (t.methodDefinitions.map f) := by
  have hnodup : (t.classDefinitions.map fun c => some c.address).Nodup := by
    refine List.pairwise_map.2 ((t.definitions_ordered.filter _).imp ?_)
    intro c e hbefore heq
    exact hbefore.ne (Option.some.inj heq)
  have hkeys : ∀ m ∈ t.methodDefinitions,
      m.owner ∈ t.classDefinitions.map fun c => some c.address := by
    intro m hm
    obtain ⟨hm, hmethod⟩ := mem_methodDefinitions.1 hm
    obtain ⟨c, hc, hclass, howner, -⟩ := exists_owner hm hmethod
    exact List.mem_map.2 ⟨c, mem_classDefinitions.2 ⟨hc, hclass⟩, howner.symm⟩
  rw [← totalCount_fibers hnodup f hkeys, List.map_map]
  exact congrArg totalCount (List.map_congr_left fun c _ => by rw [membersIn_eq, Function.comp])

theorem sum_membersIn_le (t : Tree) (c : Definition) (f : Definition → Nat) :
    totalCount ((c.membersIn t.definitions).map f) ≤
      totalCount ((t.definitions.filter (·.isCallable)).map f) := by
  rw [membersIn_eq, methodDefinitions, List.filter_filter]
  refine totalCount_map_le (List.monotone_filter_right _ fun m hm => ?_) f
  have hmethod : m.kind = .method := beq_iff_eq.1 (Bool.and_eq_true_iff.1 hm).2
  rw [Definition.isCallable, hmethod]
  rfl

end Source.Tree

/-! ## Measurements -/

namespace Source.Definition

theorem cyclomatic_measureClass (ds : List Definition) (c : Definition) :
    (c.measureClass ds).cyclomatic =
      totalCount ((c.membersIn ds).map fun m => m.tree.cyclomatic) +
        if (c.membersIn ds).isEmpty then 1 else 0 := by
  have hmethods : (c.measureClass ds).cyclomatic =
      max (totalCount ((c.membersIn ds).map fun m => m.tree.cyclomatic)) 1 := by
    simp only [measureClass, List.map_map]
    rfl
  rw [hmethods]
  cases c.membersIn ds with
  | nil => rfl
  | cons m ms =>
    -- a member alone measures at least one
    simp only [List.map_cons, totalCount_cons, Tree.cyclomatic, List.isEmpty_cons,
      Bool.false_eq_true, if_false]
    omega

theorem cognitive_measureClass (ds : List Definition) (c : Definition) :
    (c.measureClass ds).cognitive =
      totalCount ((c.membersIn ds).map fun m => m.tree.cognitive) % UInt32.size := by
  simp only [measureClass, List.map_map, wrappedTotal_eq]
  rfl

theorem measure_of_class {ds : List Definition} {c : Definition} (h : c.kind = .class) :
    c.measure ds = c.measureClass ds := by
  rw [measure, h]

theorem measure_of_method {ds : List Definition} {m : Definition} (h : m.kind = .method) :
    m.measure ds = m.measureOwn :=
  measure_of_isCallable (by rw [isCallable, h]; rfl)

end Source.Definition

namespace FileMeasurement

variable {α : Type} [Scalar α]

/-- The measurements of a kind of definitions. -/
def ofKind (file : FileMeasurement α) (kind : DefinitionKind) : List Measurement :=
  file.definitions.filter (·.kind == kind)

/-- The measurements at the positions of the definitions that a class owns. -/
def rolledUp (file : FileMeasurement α) (ds : List Definition) (c : Definition) :
    List Measurement :=
  ((ds.zip file.definitions).filter fun p => p.1.owner == some c.address).map (·.2)

/-- The measurements of a file roll up the methods among its definitions into the classes. -/
structure RollsUp (ds : List Definition) (file : FileMeasurement α) : Prop where
  /-- There is one measurement for each definition. -/
  aligned : file.definitions.map (fun m => (m.name, m.kind, m.line)) =
    ds.map fun d => (d.name, d.kind, d.tree.line)
  /-- A class measures what its methods measure. -/
  class_sums : ∀ {i : Nat} {c : Definition} {m : Measurement}, ds[i]? = some c → c.kind = .class →
    file.definitions[i]? = some m →
      m.cyclomatic = max (totalCount ((file.rolledUp ds c).map (·.cyclomatic))) 1 ∧
        m.cognitive = totalCount ((file.rolledUp ds c).map (·.cognitive)) % UInt32.size
  /-- A method has one owner, a class that is listed before it. -/
  one_class : ∀ {j : Nat} {d : Definition}, ds[j]? = some d → d.kind = .method →
    ∃ i c, ds[i]? = some c ∧ c.kind = .class ∧ d.owner = some c.address ∧ i < j ∧
      ∀ {k : Nat} {e : Definition}, ds[k]? = some e → d.owner = some e.address → k = i
  /-- Nothing else has an owner. -/
  only_methods : ∀ d ∈ ds, d.kind ≠ .method → d.owner = none
  cognitive_total : totalCount ((file.ofKind .class).map (·.cognitive)) % UInt32.size =
    totalCount ((file.ofKind .method).map (·.cognitive)) % UInt32.size
  cyclomatic_total : totalCount ((file.ofKind .class).map (·.cyclomatic)) =
    totalCount ((file.ofKind .method).map (·.cyclomatic)) +
      ds.countP fun c => c.kind == .class && (c.membersIn ds).isEmpty
  /-- The figures of the file leave out its classes. -/
  file_cyclomatic : file.cyclomatic =
    totalCount ((file.definitions.filter (·.kind != .class)).map (·.cyclomatic))
  file_cognitive : file.cognitive =
    totalCount ((file.definitions.filter (·.kind != .class)).map (·.cognitive)) % UInt32.size
  file_average : file.averageCyclomatic =
    if file.definitions.filter (·.kind != .class) = [] then 1.0
    else Scalar.mean ((file.definitions.filter (·.kind != .class)).map fun m =>
      Scalar.ofNat m.cyclomatic)

/-- The cognitive complexity of all functions and methods together. -/
def cognitiveTotal (file : FileMeasurement α) : Nat :=
  totalCount ((file.definitions.filter (·.kind != .class)).map (·.cognitive))

/-- No sum of cognitive complexities wraps around. -/
structure RollsUpExactly (ds : List Definition) (file : FileMeasurement α) : Prop where
  class_cognitive : ∀ {i : Nat} {c : Definition} {m : Measurement}, ds[i]? = some c →
    c.kind = .class → file.definitions[i]? = some m →
      m.cognitive = totalCount ((file.rolledUp ds c).map (·.cognitive))
  cognitive_total : totalCount ((file.ofKind .class).map (·.cognitive)) =
    totalCount ((file.ofKind .method).map (·.cognitive))
  file_cognitive : file.cognitive = file.cognitiveTotal

variable (path : String) (t : Tree) (lines : Nat) (coverage : α)

theorem ofKind_ofTree (kind : DefinitionKind) :
    (ofTree path t lines coverage).ofKind kind =
      (t.definitions.filter (·.kind == kind)).map fun d => d.measure t.definitions := by
  show (t.definitions.map _).filter _ = _
  rw [List.filter_map]
  refine congrArg _ (List.filter_congr fun d _ => ?_)
  rw [Function.comp, Definition.kind_measure]

theorem ofKind_class :
    (ofTree path t lines coverage).ofKind .class =
      t.classDefinitions.map fun c => c.measureClass t.definitions := by
  rw [ofKind_ofTree]
  exact List.map_congr_left fun c hc =>
    Definition.measure_of_class (Tree.mem_classDefinitions.1 hc).2

theorem ofKind_method :
    (ofTree path t lines coverage).ofKind .method =
      t.methodDefinitions.map fun m => m.measureOwn := by
  rw [ofKind_ofTree]
  exact List.map_congr_left fun m hm =>
    Definition.measure_of_method (Tree.mem_methodDefinitions.1 hm).2

theorem rolledUp_ofTree (c : Definition) :
    (ofTree path t lines coverage).rolledUp t.definitions c =
      (c.membersIn t.definitions).map fun m => m.measureOwn := by
  have hzip : t.definitions.zip (ofTree path t lines coverage).definitions =
      t.definitions.map fun d => (d, d.measure t.definitions) := List.map_prod_left_eq_zip.symm
  rw [rolledUp, hzip, List.filter_map, List.map_map]
  refine List.map_congr_left fun m hm => Definition.measure_of_method ?_
  obtain ⟨hm, howner⟩ := List.mem_filter.1 hm
  exact Tree.kind_of_owner hm (beq_iff_eq.1 howner)

theorem getElem?_definitions {i : Nat} {c : Definition} {m : Measurement}
    (hc : t.definitions[i]? = some c)
    (hm : (ofTree path t lines coverage).definitions[i]? = some m) : m = c.measure t.definitions := by
  have hmap : (t.definitions.map fun d => d.measure t.definitions)[i]? = some m := hm
  rw [List.getElem?_map, hc] at hmap
  exact (Option.some.inj hmap).symm

theorem class_sums_ofTree {c : Definition} (hclass : c.kind = .class) :
    (c.measure t.definitions).cyclomatic =
        max (totalCount (((ofTree path t lines coverage).rolledUp t.definitions c).map
          (·.cyclomatic))) 1 ∧
      (c.measure t.definitions).cognitive =
        totalCount (((ofTree path t lines coverage).rolledUp t.definitions c).map
          (·.cognitive)) % UInt32.size := by
  rw [Definition.measure_of_class hclass, rolledUp_ofTree]
  exact ⟨rfl, wrappedTotal_eq _ _⟩

theorem one_class_ofTree {j : Nat} {d : Definition} (hd : t.definitions[j]? = some d)
    (hmethod : d.kind = .method) :
    ∃ i c, t.definitions[i]? = some c ∧ c.kind = .class ∧ d.owner = some c.address ∧ i < j ∧
      ∀ {k : Nat} {e : Definition}, t.definitions[k]? = some e → d.owner = some e.address →
        k = i := by
  obtain ⟨c, hc, hclass, howner, hbefore⟩ :=
    Tree.exists_owner (List.mem_of_getElem? hd) hmethod
  obtain ⟨i, hi⟩ := List.mem_iff_getElem?.1 hc
  refine ⟨i, c, hi, hclass, howner, Tree.position_lt hi hd hbefore, ?_⟩
  intro k e he howner'
  refine Tree.position_unique he hi ?_
  rw [howner] at howner'
  exact (Option.some.inj howner').symm

theorem cognitive_class_ofTree :
    ((ofTree path t lines coverage).ofKind .class).map (·.cognitive) =
      t.classDefinitions.map fun c =>
        totalCount ((c.membersIn t.definitions).map fun m => m.tree.cognitive) % UInt32.size := by
  rw [ofKind_class, List.map_map]
  exact List.map_congr_left fun c _ => Definition.cognitive_measureClass t.definitions c

theorem cognitive_method_ofTree :
    ((ofTree path t lines coverage).ofKind .method).map (·.cognitive) =
      t.methodDefinitions.map fun m => m.tree.cognitive := by
  rw [ofKind_method, List.map_map]
  rfl

theorem cognitive_total_ofTree :
    totalCount (((ofTree path t lines coverage).ofKind .class).map (·.cognitive)) % UInt32.size =
      totalCount (((ofTree path t lines coverage).ofKind .method).map (·.cognitive)) %
        UInt32.size := by
  rw [cognitive_class_ofTree, cognitive_method_ofTree,
    totalCount_map_mod fun c _ => Nat.mod_mod _ _, t.sum_members fun m => m.tree.cognitive]

theorem cyclomatic_total_ofTree :
    totalCount (((ofTree path t lines coverage).ofKind .class).map (·.cyclomatic)) =
      totalCount (((ofTree path t lines coverage).ofKind .method).map (·.cyclomatic)) +
        t.definitions.countP fun c => c.kind == .class && (c.membersIn t.definitions).isEmpty := by
  rw [ofKind_class, ofKind_method, List.map_map, List.map_map]
  have hclasses : t.classDefinitions.map
        ((·.cyclomatic) ∘ fun c => c.measureClass t.definitions) =
      t.classDefinitions.map fun c =>
        totalCount ((c.membersIn t.definitions).map fun m => m.tree.cyclomatic) +
          if (c.membersIn t.definitions).isEmpty then 1 else 0 :=
    List.map_congr_left fun c _ => Definition.cyclomatic_measureClass t.definitions c
  have hempty : t.classDefinitions.countP (fun c => (c.membersIn t.definitions).isEmpty) =
      t.definitions.countP fun c => c.kind == .class && (c.membersIn t.definitions).isEmpty := by
    rw [Tree.classDefinitions, List.countP_filter]
    exact List.countP_congr fun c _ => by rw [Bool.and_comm]
  rw [hclasses, totalCount_map_add, t.sum_members fun m => m.tree.cyclomatic, totalCount_map_ite,
    Nat.mul_one, hempty]
  rfl

theorem rollsUp_ofTree : (ofTree path t lines coverage).RollsUp t.definitions where
  aligned := by
    show (t.definitions.map _).map _ = _
    rw [List.map_map]
    refine List.map_congr_left fun d _ => ?_
    cases hkind : d.kind <;> simp [Definition.measure, hkind, Definition.measureOwn,
      Definition.measureClass]
  class_sums := by
    intro i c m hc hclass hm
    obtain rfl := getElem?_definitions path t lines coverage hc hm
    exact class_sums_ofTree path t lines coverage hclass
  one_class := one_class_ofTree t
  only_methods := fun d hd hkind => Tree.owner_eq_none hd hkind
  cognitive_total := cognitive_total_ofTree path t lines coverage
  cyclomatic_total := cyclomatic_total_ofTree path t lines coverage
  file_cyclomatic := rfl
  file_cognitive := wrappedTotal_eq _ _
  file_average := by
    show meanCyclomatic _ = _
    simp only [meanCyclomatic, List.isEmpty_iff]
    rfl

theorem sum_membersIn_lt (hroom : (ofTree path t lines coverage).cognitiveTotal < UInt32.size)
    (c : Definition) :
    totalCount ((c.membersIn t.definitions).map fun m => m.tree.cognitive) < UInt32.size := by
  have hcallables : (ofTree path t lines coverage).definitions.filter (·.kind != .class) =
      (t.definitions.filter (·.isCallable)).map (·.measureOwn) :=
    callablesOf_map_measure t.definitions t.definitions
  rw [cognitiveTotal, hcallables, List.map_map] at hroom
  exact (t.sum_membersIn_le c fun m => m.tree.cognitive).trans_lt hroom

theorem rollsUpExactly_ofTree
    (hroom : (ofTree path t lines coverage).cognitiveTotal < UInt32.size) :
    (ofTree path t lines coverage).RollsUpExactly t.definitions where
  class_cognitive := by
    intro i c m hc hclass hm
    obtain rfl := getElem?_definitions path t lines coverage hc hm
    have hmembers := sum_membersIn_lt path t lines coverage hroom c
    rw [(class_sums_ofTree path t lines coverage hclass).2, rolledUp_ofTree, List.map_map]
    exact Nat.mod_eq_of_lt hmembers
  cognitive_total := by
    rw [cognitive_class_ofTree, cognitive_method_ofTree, ← t.sum_members fun m => m.tree.cognitive]
    refine congrArg totalCount (List.map_congr_left fun c _ => ?_)
    exact Nat.mod_eq_of_lt (sum_membersIn_lt path t lines coverage hroom c)
  file_cognitive := wrappedTotal_of_lt hroom

/-- **Classes roll up their methods.** The class of a file measures the sum of what its methods measure
themselves, and every method counts in exactly one class, which is listed before it; so the classes
together have the cognitive complexity of the methods, and their cyclomatic complexity and one for each
class without a method. The figures of the file are taken over the functions and methods alone.
Cognitive complexities agree modulo `2 ^ 32`, and exactly if all functions and methods together stay
below it. -/
theorem classes_roll_up :
    (ofTree path t lines coverage).RollsUp t.definitions ∧
      ((ofTree path t lines coverage).cognitiveTotal < UInt32.size →
        (ofTree path t lines coverage).RollsUpExactly t.definitions) :=
  ⟨rollsUp_ofTree path t lines coverage, rollsUpExactly_ofTree path t lines coverage⟩

/-- A class whose method holds a class of its own, which has no method. -/
def classInMethod : Tree :=
  let node (kind field : String) (children : List Tree) : Tree :=
    .node ⟨kind, true, some field, "", 0, 0⟩ children
  node "class_declaration" "" [node "class_body" "body" [node "method_definition" ""
    [node "if_statement" "" [node "class" "consequence" []]]]]

theorem classes_roll_up_classInMethod :
    (ofTree "a.ts" classInMethod 3 (0.0 : Float)).cognitiveTotal < UInt32.size ∧
      (ofTree "a.ts" classInMethod 3 (0.0 : Float)).RollsUpExactly classInMethod.definitions := by
  have hroom : (ofTree "a.ts" classInMethod 3 (0.0 : Float)).cognitiveTotal < UInt32.size := by decide
  exact ⟨hroom, (classes_roll_up "a.ts" classInMethod 3 (0.0 : Float)).2 hroom⟩

/-- The inner class counts one. -/
example : classInMethod.measurements.map (fun m => (m.kind, m.cyclomatic, m.cognitive)) =
    [(.class, 2, 1), (.method, 2, 1), (.class, 1, 0)] := by decide

end FileMeasurement

end CodeQuality
