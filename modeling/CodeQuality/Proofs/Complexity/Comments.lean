import CodeQuality.Number.Binary64
import CodeQuality.Proofs.Complexity.Members
import Mathlib.Data.List.Forall2

/-!
# Comments in a syntax tree

Comments are ordinary named children, at any place in a tree. `FileMeasurement.definitions_annotated`:
more comments change neither the definitions of a tree nor their complexities, and change the number
of parameters exactly by the comments that stand in the parameter list, which counts them.

`Annotated` inserts the comments. Every measure follows it by the same induction: an inserted comment
is no function, decides nothing and takes no field, and a tree that is kept looks to the measures as
before.
-/

namespace CodeQuality.Source

/-- What two nodes share that look the same to the measures of complexity: neither a name nor a row
counts, and a text only if it is an operator's. -/
structure Node.Alike (n n' : Node) : Prop where
  kind : n.kind = n'.kind
  named : n.named = n'.named
  field : n.field = n'.field
  operator : n.field = some "operator" → n.text = n'.text

/-- Whether a node is a comment. -/
def Node.isComment (n : Node) : Bool := n.named && n.kind == "comment"

/-- The trees on the right are those on the left with comments inserted at any depth. -/
inductive Annotated : List Tree → List Tree → Prop
  | nil : Annotated [] []
  | comment {c : Node} {ts ts' : List Tree} (hcomment : c.isComment = true) (hfield : c.field = none)
      (below : Annotated ts ts') : Annotated ts (.node c [] :: ts')
  | tree {t t' : Tree} {ts ts' : List Tree} (alike : t.root.Alike t'.root)
      (children : Annotated t.children t'.children) (below : Annotated ts ts') :
      Annotated (t :: ts) (t' :: ts')

namespace Tree

/-- A tree is another with comments inserted below its root. -/
structure Annotates (t t' : Tree) : Prop where
  alike : t.root.Alike t'.root
  children : Annotated t.children t'.children

/-! ## Nodes -/

section Comment

variable {c : Node}

theorem kind_of_isComment (h : c.isComment = true) : c.kind = "comment" := by
  simp only [Node.isComment, Bool.and_eq_true, beq_iff_eq] at h
  exact h.2

theorem isFunction_comment (h : c.isComment = true) (ts : List Tree) :
    (node c ts).isFunction = false := by
  simp [isFunction, root, kind_of_isComment h, functionKinds]

theorem isClass_comment (h : c.isComment = true) (ts : List Tree) : (node c ts).isClass = false := by
  simp [isClass, root, kind_of_isComment h, classKinds]

theorem construct_comment (h : c.isComment = true) (ts : List Tree) :
    (node c ts).construct = .plain := by
  rw [construct, root, kind_of_isComment h]
  rfl

end Comment

section Kept

variable {t t' : Tree}

theorem isFunction_alike (h : t.root.Alike t'.root) : t.isFunction = t'.isFunction := by
  rw [isFunction, isFunction, h.kind, h.named]

theorem isClass_alike (h : t.root.Alike t'.root) : t.isClass = t'.isClass := by
  rw [isClass, isClass, h.kind, h.named]

theorem construct_alike (h : t.root.Alike t'.root) : t.construct = t'.construct := by
  rw [construct, construct, h.kind]

theorem find?_annotated {ts ts' : List Tree} (h : Annotated ts ts') (name : String) :
    Option.Rel Annotates (ts.find? fun c => c.root.field == some name)
      (ts'.find? fun c => c.root.field == some name) := by
  -- a comment takes no field, so that a field leads to the same child
  induction h with
  | nil => exact .none
  | comment _ hfield _ ih =>
    rw [List.find?_cons_of_neg (by simp [root, hfield])]
    exact ih
  | tree alike children _ _ ih =>
    rw [List.find?_cons, List.find?_cons, alike.field]
    split
    · exact .some ⟨alike, children⟩
    · exact ih

theorem field?_annotates (h : t.Annotates t') (name : String) :
    (t.field? name = none ∧ t'.field? name = none) ∨
      ∃ c c', t.field? name = some c ∧ t'.field? name = some c' ∧ c.root.field = some name ∧
        c.Annotates c' := by
  have hrel : Option.Rel Annotates (t.field? name) (t'.field? name) :=
    find?_annotated h.children name
  cases hc : t.field? name with
  | none =>
    cases hc' : t'.field? name with
    | none => exact .inl ⟨rfl, rfl⟩
    | some c' =>
      rw [hc, hc'] at hrel
      nomatch hrel
  | some c =>
    cases hc' : t'.field? name with
    | none =>
      rw [hc, hc'] at hrel
      nomatch hrel
    | some c' =>
      rw [hc, hc'] at hrel
      have htakes : c.root.field = some name := by simpa using List.find?_some hc
      cases hrel with
      | some hannotates => exact .inr ⟨c, c', rfl, rfl, htakes, hannotates⟩

theorem isLogical_annotates (h : t.Annotates t') : t.isLogical = t'.isLogical := by
  unfold isLogical
  obtain ⟨hop, hop'⟩ | ⟨op, op', hop, hop', htakes, hannotates⟩ := field?_annotates h "operator"
  · rw [hop, hop']
  · rw [hop, hop', Option.any_some, Option.any_some, hannotates.alike.operator htakes]

theorem isDecision_annotates (h : t.Annotates t') : t.isDecision = t'.isDecision := by
  rw [isDecision, isDecision, construct_alike h.alike, isLogical_annotates h]

theorem effort_annotates (h : t.Annotates t') (depth : Nat) : t.effort depth = t'.effort depth := by
  rw [effort, effort, construct_alike h.alike, isLogical_annotates h]

theorem isMember_alike {a a' : Tree} (h : t.root.Alike t'.root) (ha : a.root.kind = a'.root.kind) :
    t.isMember (some a) = t'.isMember (some a') := by
  rw [isMember, isMember, h.kind, Option.any_some, Option.any_some, ha]

end Kept

/-! ## Measures -/

theorem decisionsBelow_annotated {ts ts' : List Tree} (h : Annotated ts ts') :
    decisionsBelow ts = decisionsBelow ts' := by
  induction h with
  | nil => rfl
  | @comment c _ _ hcomment _ _ ih =>
    have hnone : (node c []).isDecision = false := by
      rw [isDecision, construct_comment hcomment]
    rw [decisionsBelow, decisions_eq_below, hnone, isFunction_comment hcomment, ih]
    simp [Tree.children, decisionsBelow]
  | tree alike children _ ihc ih =>
    rw [decisionsBelow, decisionsBelow, decisions_eq_below, decisions_eq_below,
      isDecision_annotates ⟨alike, children⟩, isFunction_alike alike, ihc, ih]

theorem effortsBelow_annotated {ts ts' : List Tree} (h : Annotated ts ts') :
    ∀ (above : Construct) (depth : Nat), effortsBelow above depth ts = effortsBelow above depth ts' := by
  -- over all constructs and depths, since the children of a tree stand below another construct
  induction h with
  | nil =>
    intro above depth
    rfl
  | @comment c _ _ hcomment _ _ ih =>
    intro above depth
    have hfree : ∀ depth, (node c []).effort depth = 0 := by
      intro depth
      rw [effort, construct_comment hcomment]
    rw [effortsBelow, efforts_eq_below, hfree, isFunction_comment hcomment, ih]
    simp [Tree.children, effortsBelow]
  | @tree t t' _ _ alike children _ ihc ih =>
    intro above depth
    have hdepth : depthBelow above depth t = depthBelow above depth t' := by
      rw [depthBelow, depthBelow, alike.field]
    rw [effortsBelow, effortsBelow, efforts_eq_below, efforts_eq_below, hdepth,
      effort_annotates ⟨alike, children⟩, construct_alike alike, isFunction_alike alike, ihc, ih]

theorem cyclomatic_annotates {t t' : Tree} (h : t.Annotates t') : t.cyclomatic = t'.cyclomatic := by
  rw [cyclomatic, cyclomatic, decisions_eq_below, decisions_eq_below, isDecision_annotates h,
    decisionsBelow_annotated h.children]

theorem cognitive_annotates {t t' : Tree} (h : t.Annotates t') : t.cognitive = t'.cognitive := by
  rw [cognitive, cognitive, efforts_eq_below, efforts_eq_below, effort_annotates h,
    construct_alike h.alike, effortsBelow_annotated h.children]

/-- The comments that stand in the parameter list of a function. -/
def parameterComments (t : Tree) : Nat :=
  match t.field? "parameters" with
  | some list => list.children.countP (·.root.isComment)
  | none => 0

theorem countP_named_annotated {ts ts' : List Tree} (h : Annotated ts ts') :
    ts.countP (·.root.named) + ts'.countP (·.root.isComment) =
      ts'.countP (·.root.named) + ts.countP (·.root.isComment) := by
  induction h with
  | nil => rfl
  | @comment c ts ts' hcomment _ _ ih =>
    have hnamed : (node c []).root.named = true := by
      simp only [Node.isComment, Bool.and_eq_true] at hcomment
      exact hcomment.1
    have hroot : (node c []).root.isComment = true := hcomment
    rw [List.countP_cons, List.countP_cons, if_pos hnamed, if_pos hroot]
    omega
  | @tree t t' ts ts' alike _ _ _ ih =>
    have hcomment : t.root.isComment = t'.root.isComment := by
      rw [Node.isComment, Node.isComment, alike.kind, alike.named]
    rw [List.countP_cons, List.countP_cons, List.countP_cons, List.countP_cons, alike.named, hcomment]
    omega

theorem parameterCount_annotates {t t' : Tree} (h : t.Annotates t') :
    t.parameterCount + t'.parameterComments = t'.parameterCount + t.parameterComments := by
  unfold parameterCount parameterComments
  obtain ⟨hl, hl'⟩ | ⟨list, list', hl, hl', -, hlist⟩ := field?_annotates h "parameters"
  · obtain ⟨hp, hp'⟩ | ⟨p, p', hp, hp', -, -⟩ := field?_annotates h "parameter"
    · rw [hl, hl', hp, hp']
    · rw [hl, hl', hp, hp']
      rfl
  · rw [hl, hl']
    exact countP_named_annotated hlist.children

/-! ## Definitions -/

theorem membersBelow_comment {c : Node} (h : c.isComment = true) (a : Tree) (ts : List Tree) :
    membersBelow a (node c [] :: ts) = membersBelow a ts := by
  rw [membersBelow, membersFrom, isClass_comment h, isFunction_comment h]
  simp [membersBelow]

theorem membersBelow_annotated {ts ts' : List Tree} (h : Annotated ts ts') :
    ∀ {a a' : Tree}, a.root.kind = a'.root.kind →
      List.Forall₂ Annotates (membersBelow a ts) (membersBelow a' ts') := by
  induction h with
  | nil =>
    intro a a' _
    exact .nil
  | comment hcomment _ _ ih =>
    intro a a' ha
    rw [membersBelow_comment hcomment]
    exact ih ha
  | @tree t t' _ _ alike children _ ihc ih =>
    intro a a' ha
    have hfrom : List.Forall₂ Annotates (membersFrom (some a) t) (membersFrom (some a') t') := by
      cases t with
      | node n ts =>
        cases t' with
        | node n' ts' =>
          rw [membersFrom, membersFrom, isClass_alike alike, isFunction_alike alike,
            isMember_alike alike ha]
          split
          · exact .nil
          · split
            · split
              · exact .cons ⟨alike, children⟩ .nil
              · exact .nil
            · exact ihc alike.kind
    exact List.rel_append hfrom (ih ha)

end Tree

/-- Definitions of one kind whose trees differ by comments alone. -/
structure Definition.Annotates (d d' : Definition) : Prop where
  kind : d.kind = d'.kind
  tree : d.tree.Annotates d'.tree

/-- The comments that a definition counts as parameters. -/
def Definition.parameterComments (d : Definition) : Nat :=
  if d.isCallable then d.tree.parameterComments else 0

namespace Tree

theorem functionDefinition_annotates {above above' : Option Tree} {scope scope' : Option Scope}
    {t t' : Tree} (h : t.Annotates t') (address address' : Address)
    (hscope : scope.isSome = scope'.isSome) (hmember : t.isMember above = t'.isMember above') :
    (functionDefinition above scope address t).Annotates
      (functionDefinition above' scope' address' t') := by
  refine ⟨?_, by rwa [tree_functionDefinition, tree_functionDefinition]⟩
  unfold functionDefinition
  cases scope <;> cases scope' <;> cases hm : t'.isMember above' <;>
    simp_all [Option.filter]

theorem definitionsIn_comment {c : Node} (h : c.isComment = true) (above : Option Tree)
    (scope : Option Scope) (address : Address) : definitionsIn above scope address (node c []) = [] := by
  rw [definitionsIn, isClass_comment h, isFunction_comment h]
  rfl

theorem definitionsIn_annotates {above above' : Option Tree} {scope scope' : Option Scope}
    {address address' : Address} {t t' : Tree} (h : t.Annotates t')
    (hscope : scope.isSome = scope'.isSome) (hmember : t.isMember above = t'.isMember above')
    (hbelow : ∀ {scope scope' : Option Scope}, scope.isSome = scope'.isSome →
      List.Forall₂ Definition.Annotates (definitionsBelow t scope address 0 t.children)
        (definitionsBelow t' scope' address' 0 t'.children)) :
    List.Forall₂ Definition.Annotates (definitionsIn above scope address t)
      (definitionsIn above' scope' address' t') := by
  cases t with
  | node n ts =>
    cases t' with
    | node n' ts' =>
      rw [definitionsIn, definitionsIn, isClass_alike h.alike, isFunction_alike h.alike]
      split
      · exact .cons ⟨rfl, h⟩ (hbelow rfl)
      · split
        · exact .cons (functionDefinition_annotates h _ _ hscope hmember) (hbelow rfl)
        · exact hbelow hscope

theorem definitionsBelow_annotated {ts ts' : List Tree} (h : Annotated ts ts') :
    ∀ {a a' : Tree} {scope scope' : Option Scope} {address address' : Address} {i j : Nat},
      a.root.kind = a'.root.kind → scope.isSome = scope'.isSome →
        List.Forall₂ Definition.Annotates (definitionsBelow a scope address i ts)
          (definitionsBelow a' scope' address' j ts') := by
  -- with a place of its own in each walk, since a comment advances only one of them
  induction h with
  | nil =>
    intros
    exact .nil
  | comment hcomment _ _ ih =>
    intro a a' scope scope' address address' i j ha hscope
    rw [definitionsBelow, definitionsIn_comment hcomment, List.nil_append]
    exact ih ha hscope
  | tree alike children _ ihc ih =>
    intro a a' scope scope' address address' i j ha hscope
    have hmember := isMember_alike alike ha
    exact List.rel_append (definitionsIn_annotates ⟨alike, children⟩ hscope hmember (ihc alike.kind))
      (ih ha hscope)

theorem definitions_annotates {t t' : Tree} (h : t.Annotates t') :
    List.Forall₂ Definition.Annotates t.definitions t'.definitions := by
  have hmember : t.isMember none = t'.isMember none := by
    rw [isMember, isMember, h.alike.kind]
  exact definitionsIn_annotates h rfl hmember (definitionsBelow_annotated h.children h.alike.kind)

end Tree

/-! ## Figures -/

namespace Definition

theorem sum_membersIn {t : Tree} {d : Definition} (hd : d ∈ t.definitions) (hkind : d.kind = .class)
    {f : Measurement → Nat} {g : Tree → Nat} (hfg : ∀ m : Definition, f m.measureOwn = g m.tree) :
    totalCount (((d.membersIn t.definitions).map (·.measureOwn)).map f) =
      totalCount ((Tree.membersBelow d.tree d.tree.children).map g) := by
  rw [← Tree.trees_membersIn hd hkind, List.map_map, List.map_map]
  exact congrArg totalCount (List.map_congr_left fun m _ => hfg m)

theorem sum_membersIn_annotates {t t' : Tree} {d d' : Definition} (hd : d ∈ t.definitions)
    (hd' : d' ∈ t'.definitions) (h : d.Annotates d') (hkind : d.kind = .class)
    {f : Measurement → Nat} {g : Tree → Nat} (hfg : ∀ m : Definition, f m.measureOwn = g m.tree)
    (hg : ∀ {s s' : Tree}, s.Annotates s' → g s = g s') :
    totalCount (((d.membersIn t.definitions).map (·.measureOwn)).map f) =
      totalCount (((d'.membersIn t'.definitions).map (·.measureOwn)).map f) := by
  have hmembers := Tree.membersBelow_annotated h.tree.children h.tree.alike.kind
  have hmap : List.Forall₂ (· = ·) ((Tree.membersBelow d.tree d.tree.children).map g)
      ((Tree.membersBelow d'.tree d'.tree.children).map g) := by
    rw [List.forall₂_map_left_iff, List.forall₂_map_right_iff]
    exact hmembers.imp fun _ _ hm => hg hm
  rw [List.forall₂_eq_eq_eq] at hmap
  rw [sum_membersIn hd hkind hfg, sum_membersIn hd' (h.kind ▸ hkind) hfg, hmap]

end Definition

end Source

/-- Measurements of one kind with the same complexities. -/
structure Measurement.SameComplexity (m m' : Measurement) : Prop where
  kind : m.kind = m'.kind
  cyclomatic : m.cyclomatic = m'.cyclomatic
  cognitive : m.cognitive = m'.cognitive

namespace Source

variable {t t' : Tree} {d d' : Definition}

theorem Definition.measure_annotates (hd : d ∈ t.definitions) (hd' : d' ∈ t'.definitions)
    (h : d.Annotates d') :
    (d.measure t.definitions).SameComplexity (d'.measure t'.definitions) := by
  refine ⟨by rw [kind_measure, kind_measure, h.kind], ?_, ?_⟩
  · have hsum (hkind : d.kind = .class) := sum_membersIn_annotates hd hd' h hkind
      (f := Measurement.cyclomatic) (fun _ => rfl) Tree.cyclomatic_annotates
    unfold measure
    rw [← h.kind]
    cases hkind : d.kind with
    | «class» => exact congrArg (max · 1) (hsum hkind)
    | function => exact Tree.cyclomatic_annotates h.tree
    | method => exact Tree.cyclomatic_annotates h.tree
  · have hsum (hkind : d.kind = .class) := sum_membersIn_annotates hd hd' h hkind
      (f := Measurement.cognitive) (fun _ => rfl) Tree.cognitive_annotates
    unfold measure
    rw [← h.kind]
    cases hkind : d.kind with
    | «class» =>
      show wrappedTotal UInt32.size _ = wrappedTotal UInt32.size _
      rw [wrappedTotal_eq, wrappedTotal_eq, hsum hkind]
    | function => exact Tree.cognitive_annotates h.tree
    | method => exact Tree.cognitive_annotates h.tree

theorem Definition.parameters_annotates (ds ds' : List Definition) (h : d.Annotates d') :
    (d.measure ds).parameters + d'.parameterComments =
      (d'.measure ds').parameters + d.parameterComments := by
  unfold measure parameterComments isCallable
  rw [← h.kind]
  cases d.kind with
  | «class» => rfl
  | function => exact Tree.parameterCount_annotates h.tree
  | method => exact Tree.parameterCount_annotates h.tree

/-- The comments that the definitions of a tree count as parameters. -/
def Tree.countedComments (t : Tree) : List Nat := t.definitions.map (·.parameterComments)

theorem Tree.forall₂_definitions (h : t.Annotates t') {R : Definition → Definition → Prop}
    (hR : ∀ {d d'}, d ∈ t.definitions → d' ∈ t'.definitions → d.Annotates d' → R d d') :
    List.Forall₂ R t.definitions t'.definitions := by
  obtain ⟨hlength, hzip⟩ := List.forall₂_iff_zip.1 (definitions_annotates h)
  refine List.forall₂_iff_zip.2 ⟨hlength, ?_⟩
  intro d d' hmem
  have hboth := List.of_mem_zip hmem
  exact hR hboth.1 hboth.2 (hzip hmem)

end Source

namespace FileMeasurement

open Source

variable {α : Type} [Scalar α]

theorem zip_countedComments (path : String) (t : Tree) (lines : Nat) (coverage : α) :
    (ofTree path t lines coverage).definitions.zip t.countedComments =
      t.definitions.map fun d => (d.measure t.definitions, d.parameterComments) :=
  List.zip_map' ..

/-- **Comments change no complexity.** A tree with comments inserted has the same definitions in the
same order, with the same kinds and complexities; their numbers of parameters agree once the comments
in the parameter lists are set off. -/
theorem definitions_annotated {t t' : Tree} (h : t.Annotates t') (path path' : String)
    (lines lines' : Nat) (coverage coverage' : α) :
    List.Forall₂ Measurement.SameComplexity (ofTree path t lines coverage).definitions
        (ofTree path' t' lines' coverage').definitions ∧
      List.Forall₂ (fun p p' => p.1.parameters + p'.2 = p'.1.parameters + p.2)
        ((ofTree path t lines coverage).definitions.zip t.countedComments)
        ((ofTree path' t' lines' coverage').definitions.zip t'.countedComments) := by
  refine ⟨?_, ?_⟩
  · show List.Forall₂ _ t.measurements t'.measurements
    unfold Tree.measurements
    rw [List.forall₂_map_left_iff, List.forall₂_map_right_iff]
    exact Tree.forall₂_definitions h Definition.measure_annotates
  · rw [zip_countedComments, zip_countedComments, List.forall₂_map_left_iff,
      List.forall₂_map_right_iff]
    exact Tree.forall₂_definitions h fun _ _ hd => Definition.parameters_annotates _ _ hd

/-- A function whose parameter list holds some nodes. -/
def functionOf (parameters : List Tree) : Tree :=
  .node ⟨"program", true, none, "", 0, 0⟩
    [.node ⟨"function_declaration", true, none, "", 0, 0⟩
      [.node ⟨"formal_parameters", true, some "parameters", "", 0, 0⟩ parameters]]

/-- A function without parameters, a comment between its parentheses. -/
def functionOfComment : Tree :=
  functionOf [.node ⟨"comment", true, none, "/* only comment */", 0, 0⟩ []]

theorem annotates_functionOfComment : (functionOf []).Annotates functionOfComment :=
  have hsame (n : Node) : n.Alike n := ⟨rfl, rfl, rfl, fun _ => rfl⟩
  ⟨hsame _, .tree (hsame _) (.tree (hsame _) (.comment rfl rfl .nil) .nil) .nil⟩

theorem definitions_annotated_functionOfComment :
    (functionOf []).Annotates functionOfComment ∧
      List.Forall₂ Measurement.SameComplexity (ofTree "a.js" (functionOf []) 1 (0.0 : Float)).definitions
        (ofTree "a.js" functionOfComment 1 (0.0 : Float)).definitions ∧
      List.Forall₂ (fun p p' => p.1.parameters + p'.2 = p'.1.parameters + p.2)
        ((ofTree "a.js" (functionOf []) 1 (0.0 : Float)).definitions.zip
          (functionOf []).countedComments)
        ((ofTree "a.js" functionOfComment 1 (0.0 : Float)).definitions.zip
          functionOfComment.countedComments) :=
  ⟨annotates_functionOfComment,
    definitions_annotated annotates_functionOfComment "a.js" "a.js" 1 1 0.0 0.0⟩

/-- The comment is counted as a parameter. -/
theorem comment_counted_as_parameter :
    (functionOf []).Annotates functionOfComment ∧
      (ofTree "a.js" (functionOf []) 1 (0.0 : Float)).definitions.map (·.parameters) = [0] ∧
      (ofTree "a.js" functionOfComment 1 (0.0 : Float)).definitions.map (·.parameters) = [1] :=
  ⟨annotates_functionOfComment, by decide, by decide⟩

end FileMeasurement

end CodeQuality
