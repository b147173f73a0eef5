/-!
# Syntax trees

A node of a syntax tree knows its kind, the field that it takes in the node above, its text and its
rows. Trees are read from a listing in which every node comes before its children
(`Tree.ofListing?`); the place of a node is its address, the positions of the children that lead to
it from the root.
-/

namespace CodeQuality.Source

/-- A node of a syntax tree, its children apart. -/
structure Node where
  /-- The grammar's name for such nodes. -/
  kind : String
  /-- Whether the grammar names the node; keywords and punctuation are not named. -/
  named : Bool
  /-- The field that the node takes in the node above. -/
  field : Option String
  /-- What stands in the source. -/
  text : String
  /-- The row where the text starts, counted from `0`. -/
  firstRow : Nat
  /-- The row where the text ends. -/
  lastRow : Nat
deriving DecidableEq

/-- A syntax tree. -/
inductive Tree where
  | node (root : Node) (children : List Tree)

/-- The positions of the children on the way from the root. -/
abbrev Address := List Nat

namespace Tree

/-- The node at the root. -/
def root : Tree → Node
  | node n _ => n

/-- The trees below the root. -/
def children : Tree → List Tree
  | node _ ts => ts

/-- The line where a tree starts, counted from `1`. -/
def line (t : Tree) : Nat := t.root.firstRow + 1

/-- The number of lines that a tree touches. -/
def lineCount (t : Tree) : Nat := t.root.lastRow - t.root.firstRow + 1

/-- The first child that takes a field. -/
def field? (t : Tree) (name : String) : Option Tree :=
  t.children.find? fun c => c.root.field == some name

mutual

/-- A tree and all trees inside it, each before what lies below it. -/
def subtrees : Tree → List Tree
  | node n ts => node n ts :: subtreesBelow ts

/-- The trees inside a list of trees. -/
def subtreesBelow : List Tree → List Tree
  | [] => []
  | t :: ts => subtrees t ++ subtreesBelow ts

end

/-! ## Listings -/

/-- Puts a node in front of the trees that a listing holds behind it: those that lie deeper are its
children. -/
def attach (entry : Nat × Node) (behind : List (Nat × Tree)) : List (Nat × Tree) :=
  let (below, rest) := behind.span fun p => entry.1 < p.1
  (entry.1, node entry.2 (below.map Prod.snd)) :: rest

/-- The tree of a listing of its nodes with their depths, each before what lies below it. -/
def ofListing? (entries : List (Nat × Node)) : Option Tree :=
  match entries.foldr attach [] with
  | [(_, t)] => some t
  | _ => none

end Tree

end CodeQuality.Source
