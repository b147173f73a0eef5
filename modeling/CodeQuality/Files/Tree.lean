/-!
# File trees

Files and directories, and how a path leads to one of them. A path starts at a directory and takes
its steps one after the other; two dots go back to the directory that the last step came from.
-/

namespace CodeQuality.Files

/-- A file or a directory. -/
inductive Entry where
  | file (content : ByteArray)
  | directory (entries : List (String × Entry))

/-- Why a text cannot be read. -/
inductive Fault where
  | missing
  | notDirectory
  | isDirectory
  | notText
deriving DecidableEq

/-- The message of a fault. -/
def Fault.message : Fault → String
  | missing => "No such file or directory (os error 2)"
  | notDirectory => "Not a directory (os error 20)"
  | isDirectory => "Is a directory (os error 21)"
  | notText => "stream did not contain valid UTF-8"

namespace Entry

/-! ## Building -/

/-- A directory without entries. -/
def empty : Entry := directory []

/-- The entries of a directory. -/
def entries : Entry → List (String × Entry)
  | directory es => es
  | file _ => []

/-- Entries with the one of a name set. -/
def setEntry (name : String) (entry : Entry) : List (String × Entry) → List (String × Entry)
  | [] => [(name, entry)]
  | e :: rest => if e.1 = name then (name, entry) :: rest else e :: setEntry name entry rest

/-- The tree with what stands at the end of some steps changed; directories on the way are made. -/
def alter (change : Entry → Entry) : List String → Entry → Entry
  | [], here => change here
  | name :: rest, here =>
    directory
      (setEntry name (alter change rest ((here.entries.lookup name).getD empty)) here.entries)

/-- The tree with a file at the end of some steps. -/
def addFile (steps : List String) (content : ByteArray) (here : Entry) : Entry :=
  here.alter (fun _ => file content) steps

/-- The tree with a directory at the end of some steps. -/
def addDirectory (steps : List String) (here : Entry) : Entry :=
  here.alter (fun old => directory old.entries) steps

/-! ## Following paths -/

/-- Where a path has led: the names of the steps from the start, last first, with what they lead
to. -/
abbrev Trail := List (String × Entry)

/-- What a trail leads to. -/
def here (start : Entry) (trail : Trail) : Entry := (trail.head?.map Prod.snd).getD start

/-- Follows steps. -/
def follow (start : Entry) (trail : Trail) : List String → Except Fault Trail
  | [] => .ok trail
  | step :: rest =>
    match start.here trail with
    | file _ => .error .notDirectory
    | directory entries =>
      if step = "" ∨ step = "." then start.follow trail rest
      else if step = ".." then start.follow trail.tail rest
      else
        match entries.lookup step with
        | some entry => start.follow ((step, entry) :: trail) rest
        | none => .error .missing

/-- Where a path leads. -/
def resolve (start : Entry) (path : String) : Except Fault Trail :=
  start.follow [] ((path.toList.splitOn '/').map String.ofList)

/-- The path that a trail took, without detours. -/
def Trail.path (trail : Trail) : String := "/".intercalate (trail.reverse.map Prod.fst)

/-- The text of the file at a path. -/
def readText (start : Entry) (path : String) : Except Fault String := do
  let trail ← start.resolve path
  match start.here trail with
  | directory _ => .error .isDirectory
  | file content =>
    match String.fromUTF8? content with
    | some text => .ok text
    | none => .error .notText

end Entry

end CodeQuality.Files
