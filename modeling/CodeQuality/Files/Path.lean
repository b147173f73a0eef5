/-!
# Paths

Paths are texts. Their steps stand between slashes; empty steps and single dots mean nothing, except
for a slash or a single dot at the front. Going up drops the last step that means something with
all that stands behind it, and what means nothing in front of it.
-/

namespace CodeQuality.Files

/-- Whether a step means something. -/
def isStep (cs : List Char) : Bool := !cs.isEmpty && cs != ['.']

/-- The slash or the single dot at the front of a path, and the rest. -/
def splitHead : List Char → List Char × List Char
  | '/' :: cs => (['/'], cs)
  | ['.'] => (['.'], [])
  | '.' :: '/' :: cs => (['.'], '/' :: cs)
  | cs => ([], cs)

/-- Steps last first, without those at the end that mean nothing. -/
def stepsBack (cs : List Char) : List (List Char) :=
  ((cs.splitOn '/').reverse).dropWhile fun step => !isStep step

/-- The path one step up. -/
def parentChars? (cs : List Char) : Option (List Char) :=
  let (head, body) := splitHead cs
  match stepsBack body with
  | [] => if head = ['.'] then some [] else none
  | _ :: before =>
    let kept := (before.dropWhile fun step => !isStep step).reverse
    some (head ++ ['/'].intercalate kept)

/-- The path one step up; the root and the empty path have none. -/
def parent? (path : String) : Option String := (parentChars? path.toList).map String.ofList

/-- A path and those above it, at most `depth` in all. -/
def ancestors : Nat → String → List String
  | 0, _ => []
  | depth + 1, path =>
    path :: match parent? path with
      | some up => ancestors depth up
      | none => []

/-- The path of a name inside a directory. -/
def join (directory name : String) : String :=
  if name.startsWith "/" then name
  else if directory.isEmpty || directory.endsWith "/" then directory ++ name
  else directory ++ "/" ++ name

/-- What stands behind the last dot of a name, unless that dot is its first character. -/
def extensionChars? (name : List Char) : Option (List Char) :=
  match name.reverse.span (· != '.') with
  | (back, _ :: _ :: _) => some back.reverse
  | _ => none

/-- The extension of the last step of a path. -/
def extension? (path : String) : Option String :=
  match stepsBack (splitHead path.toList).2 with
  | [] => none
  | name :: _ => if name = ['.', '.'] then none else (extensionChars? name).map String.ofList

end CodeQuality.Files
