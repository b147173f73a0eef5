import CodeQuality.Source.Tree

/-!
# Constructs

What the nodes of a syntax tree mean for the measures of complexity, told from their kinds. The
keywords `function` and `class` share the kinds of the constructs that they open, so that functions
and classes are always named nodes.
-/

namespace CodeQuality.Source

/-- What a node is to the measures of complexity. -/
inductive Construct where
  /-- An `if`. -/
  | choice
  /-- A loop of any form. -/
  | loop
  /-- A `switch`. -/
  | selection
  /-- A `case` of a `switch`; its `default` is no decision. -/
  | selectionCase
  /-- A `catch`. -/
  | handler
  /-- A conditional expression. -/
  | conditional
  /-- An expression of two operands. -/
  | operation
  /-- Anything else. -/
  | plain
deriving DecidableEq

/-- The construct that a kind of node stands for. -/
def Construct.ofKind (kind : String) : Construct :=
  match kind with
  | "if_statement" => choice
  | "for_statement" | "for_in_statement" | "for_of_statement" | "while_statement"
  | "do_statement" => loop
  | "switch_statement" => selection
  | "switch_case" => selectionCase
  | "catch_clause" => handler
  | "ternary_expression" => conditional
  | "binary_expression" => operation
  | _ => plain

/-- The kinds of functions. -/
def functionKinds : List String :=
  ["function_declaration", "generator_function_declaration", "function_expression", "function",
    "generator_function", "arrow_function", "method_definition"]

/-- The kinds of classes. -/
def classKinds : List String := ["class_declaration", "abstract_class_declaration", "class"]

/-- The kinds of the fields of a class. -/
def classFieldKinds : List String := ["public_field_definition", "field_definition"]

namespace Tree

/-- What the root of a tree is. -/
def construct (t : Tree) : Construct := .ofKind t.root.kind

/-- Whether a tree is a function. -/
def isFunction (t : Tree) : Bool := t.root.named && functionKinds.contains t.root.kind

/-- Whether a tree is a class. -/
def isClass (t : Tree) : Bool := t.root.named && classKinds.contains t.root.kind

/-- Whether the operator of a tree is `&&` or `||`. -/
def isLogical (t : Tree) : Bool :=
  (t.field? "operator").any fun op => op.root.text == "&&" || op.root.text == "||"

/-- Whether control flow decides at the root: at a choice, a loop, a case, a handler, a conditional
expression and a logical operator. -/
def isDecision (t : Tree) : Bool :=
  match t.construct with
  | .choice | .loop | .selectionCase | .handler | .conditional => true
  | .operation => t.isLogical
  | .selection | .plain => false

/-- The number of parameters: the named parts of a parameter list, or one bare parameter. -/
def parameterCount (t : Tree) : Nat :=
  match t.field? "parameters" with
  | some list => list.children.countP (·.root.named)
  | none => if (t.field? "parameter").isSome then 1 else 0

end Tree

end CodeQuality.Source
