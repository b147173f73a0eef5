import CodeQuality.Source.Construct

/-!
# Definitions

The classes and functions of a syntax tree, in document order. A function that a class directly
holds, as a method or as the value of a field, is a method of that class; a function anywhere else
stands for itself.

The search carries the innermost class whose body directly holds what is visited. A class inside
takes its place, and inside a function there is none.
-/

namespace CodeQuality.Source

/-- What a definition defines. -/
inductive DefinitionKind where
  | function : DefinitionKind
  | method : DefinitionKind
  | class : DefinitionKind
deriving DecidableEq

namespace DefinitionKind

/-- All kinds. -/
def all : List DefinitionKind := [function, method, .class]

/-- The name in data. -/
def key : DefinitionKind → String
  | function => "function"
  | method => "method"
  | .class => "class"

/-- The kind with a name in data. -/
def named? (s : String) : Option DefinitionKind := all.find? (·.key == s)

theorem named?_key (k : DefinitionKind) : named? k.key = some k := by cases k <;> decide

end DefinitionKind

/-- A class or a function of a syntax tree. -/
structure Definition where
  tree : Tree
  address : Address
  name : String
  kind : DefinitionKind
  /-- The address of the class that a method belongs to. -/
  owner : Option Address

/-- A class that directly holds what is visited. -/
structure Scope where
  address : Address
  name : String

namespace Tree

/-- The name of a class. -/
def className (t : Tree) : String :=
  ((t.field? "name").map (·.root.text)).getD "<anonymous class>"

/-- The field of a construct that names the function which is bound in it. -/
def bindingField? : String → Option String
  | "variable_declarator" | "public_field_definition" => some "name"
  | "field_definition" => some "property"
  | "pair" => some "key"
  | "assignment_expression" => some "left"
  | _ => none

/-- The name of a function: its own, or else that of what it is bound to. -/
def functionName (above : Option Tree) (t : Tree) : String :=
  let bound : Option Tree := do
    let parent ← above
    let field ← bindingField? parent.root.kind
    parent.field? field
  (((t.field? "name").or bound).map (·.root.text)).getD "<anonymous>"

/-- Whether a function is a member of a class that holds it: a method, or the value of a field. -/
def isMember (above : Option Tree) (t : Tree) : Bool :=
  t.root.kind == "method_definition" ||
    above.any fun parent => classFieldKinds.contains parent.root.kind

/-- The definition that a function is. -/
def functionDefinition (above : Option Tree) (scope : Option Scope) (address : Address)
    (t : Tree) : Definition :=
  let name := t.functionName above
  match scope.filter fun _ => t.isMember above with
  | some s =>
    { tree := t, address, name := s.name ++ "." ++ name, kind := .method, owner := some s.address }
  | none => { tree := t, address, name, kind := .function, owner := none }

/-- The definition that a class is. -/
def classDefinition (address : Address) (t : Tree) : Definition :=
  { tree := t, address, name := t.className, kind := .class, owner := none }

mutual

/-- The definitions in a tree at an address, below `above` and inside `scope`. -/
def definitionsIn (above : Option Tree) (scope : Option Scope) (address : Address) :
    Tree → List Definition
  | node n ts =>
    let t := node n ts
    if t.isClass then
      classDefinition address t ::
        definitionsBelow t (some ⟨address, t.className⟩) address 0 ts
    else if t.isFunction then
      functionDefinition above scope address t :: definitionsBelow t none address 0 ts
    else definitionsBelow t scope address 0 ts

/-- The definitions in the children of `above` from position `i` on. -/
def definitionsBelow (above : Tree) (scope : Option Scope) (address : Address) (i : Nat) :
    List Tree → List Definition
  | [] => []
  | t :: ts =>
    definitionsIn (some above) scope (address ++ [i]) t ++
      definitionsBelow above scope address (i + 1) ts

end

/-- The classes and functions of a tree in document order. -/
def definitions (t : Tree) : List Definition := definitionsIn none none [] t

end Tree

end CodeQuality.Source
