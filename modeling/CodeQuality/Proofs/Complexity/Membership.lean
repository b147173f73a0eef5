import CodeQuality.Proofs.Complexity.Conservation
import CodeQuality.Proofs.Complexity.Site

/-!
# Methods of a class

Which functions are the methods of a class, by the shape of the tree alone: a function belongs to the
innermost class or function above it, if that is a class and the function is a method definition or the
value of a field (`Tree.methods_of_class`). What lies between the two is free, as long as it is neither a
class nor a function.

So the direct members of a class are among its methods, and every other method of it is a method
definition deeper inside, in an object literal, or a function of a field that lies deeper. The complexity
of the class counts it as well (`Tree.method_in_field`).
-/

namespace CodeQuality.Source.Tree

variable {t f : Tree} {c p : Address} {cls : Place} {between : List Tree}

/-! ## The innermost class around a place -/

/-- The place `cls` at `c` lies above the place of `f` at `p`, and `between` between the two, the
innermost first. -/
structure LiesAbove (t : Tree) (c p : Address) (cls : Place) (f : Tree) (between : List Tree) : Prop where
  outer : t.place? c = some cls
  inner : t.place? p = some ⟨f, between ++ cls.tree :: cls.above⟩
  below : c <+: p

/-- The innermost class or function above the place of `f` at `p` is a class, and at `c`. -/
structure Encloses (t : Tree) (c p : Address) (cls : Place) (f : Tree) (between : List Tree) : Prop
    extends LiesAbove t c p cls f between where
  isClass : cls.tree.isClass = true
  plain : ∀ u ∈ between, u.isClass = false ∧ u.isFunction = false

theorem encloses_concat {a : Tree} {above : List Tree} {outer : Address} {i : Nat}
    (houter : t.place? outer = some ⟨a, above⟩)
    (hinner : t.place? (outer ++ [i]) = some ⟨f, a :: above⟩) :
    t.Encloses c (outer ++ [i]) cls f between ↔
      (between = [] ∧ cls = ⟨a, above⟩ ∧ c = outer ∧ a.isClass = true) ∨
        ∃ rest, between = a :: rest ∧ a.isClass = false ∧ a.isFunction = false ∧
          t.Encloses c outer cls a rest := by
  obtain ⟨b, around⟩ := cls
  constructor
  · rintro ⟨⟨hc, hp, hbelow⟩, hclass, hplain⟩
    have habove : a :: above = between ++ b :: around :=
      congrArg Place.above (Option.some.inj (hinner.symm.trans hp))
    -- the class is no deeper than its place, which is above
    have hlength := length_of_place? hc
    have hshorter : c <+: outer := by
      refine (List.prefix_concat_iff.1 hbelow).resolve_left fun heq => ?_
      have hdeep := length_of_place? hinner
      rw [habove, ← heq, hlength, List.length_append, List.length_cons] at hdeep
      omega
    rcases List.cons_eq_append_iff.1 habove with ⟨rfl, hcls⟩ | ⟨rest, rfl, hrest⟩
    · obtain ⟨rfl, rfl⟩ := List.cons.inj hcls
      exact .inl ⟨rfl, rfl, hshorter.eq_of_length (hlength.trans (length_of_place? houter).symm), hclass⟩
    · obtain ⟨hnotClass, hnotFunction⟩ := hplain a List.mem_cons_self
      refine .inr ⟨rest, rfl, hnotClass, hnotFunction, ⟨hc, ?_, hshorter⟩, hclass, ?_⟩
      · rw [houter, hrest]
      · exact fun u hu => hplain u (List.mem_cons_of_mem _ hu)
  · rintro (⟨rfl, hcls, rfl, hclass⟩ | ⟨rest, rfl, hnotClass, hnotFunction, henc⟩)
    · obtain ⟨rfl, rfl⟩ := Place.mk.inj hcls
      exact ⟨⟨houter, hinner, List.prefix_append _ _⟩, hclass, nofun⟩
    · have habove : above = rest ++ b :: around :=
        congrArg Place.above (Option.some.inj (houter.symm.trans henc.inner))
      refine ⟨⟨henc.outer, ?_, henc.below.trans (List.prefix_append _ _)⟩, henc.isClass, ?_⟩
      · rw [hinner, habove, List.cons_append]
      · exact List.forall_mem_cons.2 ⟨⟨hnotClass, hnotFunction⟩, henc.plain⟩

theorem scopeBelow_eq_some {above : List Tree} {s : Scope} (h : t.place? p = some ⟨f, above⟩) :
    scopeBelow above p.dropLast = some s ↔
      ∃ cls between, t.Encloses s.address p cls f between ∧ cls.tree.className = s.name := by
  -- upwards from the place, one tree at a time
  induction above generalizing f p with
  | nil =>
    constructor
    · nofun
    · rintro ⟨cls, between, henc, -⟩
      have habove := congrArg Place.above (Option.some.inj (h.symm.trans henc.inner))
      exact absurd habove (by simp)
  | cons a above ih =>
    obtain ⟨outer, i, rfl, houter, -⟩ := place?_eq_some_cons.1 h
    rw [List.dropLast_concat, scopeBelow]
    simp only [encloses_concat houter h]
    split
    · -- the class is reached
      rename_i hclass
      constructor
      · rintro ⟨⟩
        exact ⟨⟨a, above⟩, [], .inl ⟨rfl, rfl, rfl, hclass⟩, rfl⟩
      · rintro ⟨cls, between, ⟨-, rfl, haddress, -⟩ | ⟨rest, -, hnotClass, -⟩, hname⟩
        · obtain ⟨address, name⟩ := s
          obtain rfl : address = outer := haddress
          obtain rfl : a.className = name := hname
          rfl
        · exact absurd hclass (by simp [hnotClass])
    · rename_i hnotClass
      split
      · -- a function ends the search
        rename_i hfunction
        constructor
        · nofun
        · rintro ⟨cls, between, ⟨-, -, -, hclass⟩ | ⟨rest, -, -, hnotFunction, -⟩, -⟩
          · exact absurd hclass hnotClass
          · exact absurd hfunction (by simp [hnotFunction])
      · rename_i hnotFunction
        rw [ih houter]
        constructor
        · rintro ⟨cls, between, henc, hname⟩
          exact ⟨cls, a :: between, .inr ⟨between, rfl, by simpa using hnotClass,
            by simpa using hnotFunction, henc⟩, hname⟩
        · rintro ⟨cls, between, ⟨-, -, -, hclass⟩ | ⟨rest, -, -, -, henc⟩, hname⟩
          · exact absurd hclass hnotClass
          · exact ⟨cls, rest, henc, hname⟩

/-! ## Methods -/

theorem not_mem_classFieldKinds {kind : String} (h : kind ∈ classKinds) : kind ∉ classFieldKinds := by
  simp only [classKinds, List.mem_cons, List.not_mem_nil, or_false] at h
  rcases h with rfl | rfl | rfl <;> decide

/-- The definitions of `t` have `f`, at `p`, as a method of the class at `c`. -/
def MethodOf (t : Tree) (c p : Address) (f : Tree) : Prop :=
  ∃ d ∈ t.definitions, d.tree = f ∧ d.address = p ∧ d.kind = .method ∧ d.owner = some c

theorem method_functionDefinition {above : Option Tree} {scope : Option Scope} :
    (functionDefinition above scope p f).kind = .method ∧
        (functionDefinition above scope p f).owner = some c ↔
      f.isMember above = true ∧ ∃ s, scope = some s ∧ s.address = c := by
  cases scope with
  | none => simp [functionDefinition]
  | some s => cases hmember : f.isMember above <;> simp [functionDefinition, Option.filter, hmember]

theorem owner_functionDefinition {above : Option Tree} {scope : Option Scope}
    (h : (functionDefinition above scope p f).owner = some c) :
    (functionDefinition above scope p f).kind = .method := by
  simp only [functionDefinition] at h ⊢
  split
  · rfl
  · rename_i hnone
    rw [hnone] at h
    cases h

theorem kind_of_owner {d : Definition} (hd : d ∈ t.definitions) (h : d.owner = some c) :
    d.kind = .method := by
  obtain ⟨s, -, hdefinition⟩ := mem_definitions.1 hd
  rcases Site.definition?_eq_some.1 hdefinition with ⟨-, rfl⟩ | ⟨-, -, rfl⟩
  · cases h
  · exact owner_functionDefinition h

theorem mem_membersIn {d m : Definition} :
    m ∈ d.membersIn t.definitions ↔ m ∈ t.definitions ∧ t.MethodOf d.address m.address m.tree := by
  rw [Definition.membersIn, List.mem_filter, beq_iff_eq]
  refine and_congr_right fun hm => ?_
  constructor
  · intro howner
    exact ⟨m, hm, rfl, rfl, kind_of_owner hm howner, howner⟩
  · rintro ⟨e, he, -, haddress, -, howner⟩
    rwa [← definition_unique he hm haddress]

theorem methodOf_iff_scope :
    t.MethodOf c p f ↔
      ∃ above s, t.place? p = some ⟨f, above⟩ ∧ f.isFunction = true ∧ f.isMember above.head? = true ∧
        scopeBelow above p.dropLast = some s ∧ s.address = c := by
  constructor
  · rintro ⟨d, hd, rfl, rfl, hmethod⟩
    obtain ⟨site, hplace, hdefinition⟩ := mem_definitions.1 hd
    rcases Site.definition?_eq_some.1 hdefinition with ⟨-, rfl⟩ | ⟨-, hfunction, rfl⟩
    · cases hmethod.1
    · obtain ⟨hmember, s, hscope, hs⟩ := method_functionDefinition.1 hmethod
      rw [tree_functionDefinition, Site.address_functionDefinition]
      exact ⟨site.above, s, hplace, hfunction, hmember, hscope, hs⟩
  · rintro ⟨above, s, hplace, hfunction, hmember, hscope, hs⟩
    have hclass := isClass_eq_false_of_isFunction hfunction
    let site : Site := ⟨⟨f, above⟩, p⟩
    have hdefinition := (Site.definition?_eq_some (s := site)).2 (.inr ⟨hclass, hfunction, rfl⟩)
    refine ⟨_, mem_definitions.2 ⟨site, hplace, hdefinition⟩, ?_⟩
    exact ⟨tree_functionDefinition .., Site.address_functionDefinition ..,
      method_functionDefinition.2 ⟨hmember, s, hscope, hs⟩⟩

theorem isMember_iff (hclass : cls.tree.isClass = true) :
    f.isMember (between ++ cls.tree :: cls.above).head? = true ↔
      f.root.kind = "method_definition" ∨ ∃ u ∈ between.head?, u.root.kind ∈ classFieldKinds := by
  simp only [isMember, Bool.or_eq_true, beq_iff_eq]
  refine or_congr_right ?_
  cases between with
  | nil =>
    -- a class is no field
    have hkind : cls.tree.root.kind ∉ classFieldKinds := by
      simp only [isClass, Bool.and_eq_true, List.contains_eq_mem, decide_eq_true_eq] at hclass
      exact not_mem_classFieldKinds hclass.2
    simp [hkind]
  | cons u rest => simp

theorem methodOf_iff :
    t.MethodOf c p f ↔
      f.isFunction = true ∧ ∃ cls between, t.Encloses c p cls f between ∧
        (f.root.kind = "method_definition" ∨ ∃ u ∈ between.head?, u.root.kind ∈ classFieldKinds) := by
  rw [methodOf_iff_scope]
  constructor
  · rintro ⟨above, s, hplace, hfunction, hmember, hscope, rfl⟩
    obtain ⟨cls, between, henc, -⟩ := (scopeBelow_eq_some hplace).1 hscope
    have habove : above = between ++ cls.tree :: cls.above :=
      congrArg Place.above (Option.some.inj (hplace.symm.trans henc.inner))
    rw [habove] at hmember
    exact ⟨hfunction, cls, between, henc, (isMember_iff henc.isClass).1 hmember⟩
  · rintro ⟨hfunction, cls, between, henc, hkind⟩
    exact ⟨_, ⟨c, cls.tree.className⟩, henc.inner, hfunction, (isMember_iff henc.isClass).2 hkind,
      (scopeBelow_eq_some henc.inner).2 ⟨cls, between, henc, rfl⟩, rfl⟩

/-! ## Direct members -/

def IsClassBody (u : Tree) : Prop := u.root.kind = "class_body" ∧ u.root.field = some "body"

/-- What lies between a class and a function that it directly holds: its body and, for the value of a
field, the field. -/
inductive HeldThrough : Tree → List Tree → Prop
  | method {f body : Tree} (hkind : f.root.kind = "method_definition") (hbody : body.IsClassBody) :
      HeldThrough f [body]
  | field {f field body : Tree} (hkind : field.root.kind ∈ classFieldKinds)
      (hbody : body.IsClassBody) : HeldThrough f [field, body]

/-- The function `f` at `p` is a direct member of the class at `c`. -/
def DirectMember (t : Tree) (c p : Address) (f : Tree) : Prop :=
  ∃ cls between, t.LiesAbove c p cls f between ∧ cls.tree.isClass = true ∧ f.isFunction = true ∧
    HeldThrough f between

theorem HeldThrough.plain (h : HeldThrough f between) :
    ∀ u ∈ between, u.isClass = false ∧ u.isFunction = false := by
  have hplain : ∀ {u : Tree}, u.root.kind ∈ "class_body" :: classFieldKinds →
      u.isClass = false ∧ u.isFunction = false := by
    intro u hu
    simp only [isClass, isFunction, List.contains_eq_mem]
    simp only [classFieldKinds, List.mem_cons, List.not_mem_nil, or_false] at hu
    rcases hu with hu | hu | hu <;> rw [hu] <;> simp [classKinds, functionKinds]
  cases h with
  | method _ hbody => simpa using hplain (by simp [hbody.1])
  | field hkind hbody =>
    simpa using ⟨hplain (List.mem_cons_of_mem _ hkind), hplain (by simp [hbody.1])⟩

theorem HeldThrough.isMember (h : HeldThrough f between) :
    f.root.kind = "method_definition" ∨ ∃ u ∈ between.head?, u.root.kind ∈ classFieldKinds := by
  cases h with
  | method hkind _ => exact .inl hkind
  | field hkind _ => exact .inr ⟨_, rfl, hkind⟩

/-- **The methods of a class.** A function is a method of the innermost class or function above it, if
that is a class and the function is a method definition or stands right below a field. The direct
members of a class are those of its methods that only its body and a field separate from it. The
figures of a class are taken over all its methods. -/
theorem methods_of_class (t : Tree) :
    (∀ c p f, t.MethodOf c p f ↔
      f.isFunction = true ∧ ∃ cls between, t.Encloses c p cls f between ∧
        (f.root.kind = "method_definition" ∨ ∃ u ∈ between.head?, u.root.kind ∈ classFieldKinds)) ∧
      (∀ c p f, t.DirectMember c p f ↔
        t.MethodOf c p f ∧ ∃ cls between, t.Encloses c p cls f between ∧ HeldThrough f between) ∧
      ∀ d m : Definition, m ∈ d.membersIn t.definitions ↔
        m ∈ t.definitions ∧ t.MethodOf d.address m.address m.tree := by
  refine ⟨fun c p f => methodOf_iff, fun c p f => ?_, fun d m => mem_membersIn⟩
  constructor
  · rintro ⟨cls, between, hlies, hclass, hfunction, hheld⟩
    have henc : t.Encloses c p cls f between := ⟨hlies, hclass, hheld.plain⟩
    exact ⟨methodOf_iff.2 ⟨hfunction, cls, between, henc, hheld.isMember⟩, cls, between, henc, hheld⟩
  · rintro ⟨hmethod, cls, between, henc, hheld⟩
    exact ⟨cls, between, henc.toLiesAbove, henc.isClass, (methodOf_iff.1 hmethod).1, hheld⟩

/-- A class with a field whose value is an object literal with a method: `class A { x = { m() { if … } } }`. -/
def methodInField : Tree :=
  let node (kind field text : String) (children : List Tree) : Tree :=
    .node ⟨kind, true, some field, text, 0, 0⟩ children
  node "program" "" "" [node "class_declaration" "" ""
    [node "type_identifier" "name" "A" [], node "class_body" "body" ""
      [node "public_field_definition" "" "" [node "property_identifier" "name" "x" [],
        node "object" "value" "" [node "method_definition" "" ""
          [node "property_identifier" "name" "m" [], node "statement_block" "body" ""
            [node "if_statement" "" "" []]]]]]]]

/-- The method of an object literal in a field is a method of the class, which does not directly hold
it, and the class is charged with its choice. -/
theorem method_in_field :
    (∃ f, methodInField.MethodOf [0] [0, 1, 0, 1, 0] f ∧
      ¬methodInField.DirectMember [0] [0, 1, 0, 1, 0] f) ∧
    methodInField.measurements.map (fun m => (m.name, m.kind, m.cyclomatic, m.cognitive)) =
      [("A", .class, 2, 1), ("A.m", .method, 2, 1)] := by
  refine ⟨⟨_, ⟨_, List.mem_cons_of_mem _ List.mem_cons_self, rfl, rfl, rfl, rfl⟩, ?_⟩, by decide⟩
  rintro ⟨cls, between, hlies, -, -, hheld⟩
  -- the object lies between as well
  have hbetween : between.length = 3 := by
    have houter := length_of_place? hlies.outer
    have hinner := length_of_place? hlies.inner
    simp only [List.length_append, List.length_cons, List.length_nil] at houter hinner
    omega
  cases hheld <;> nomatch hbetween

end CodeQuality.Source.Tree
