import CodeQuality.Json.Token

/-!
# Reading JSON texts

`Json.read?` accepts exactly the texts that hold one JSON value, with blanks around it. It goes
through the tokens once and keeps the arrays and objects that are still open on a stack.
-/

namespace CodeQuality.Json

/-- What is still open, innermost first. Items and members are kept last first. -/
inductive Frame where
  | array (items : List Json)
  | object (members : List (Option String × Json))
  /-- A member of the object below whose value is being read. -/
  | member (name : Option String)

/-- What may follow. -/
inductive Need where
  /-- A value. -/
  | value
  /-- The first item of an array, or its end. -/
  | item
  /-- The first member of an object, or its end. -/
  | member
  /-- The name of a further member. -/
  | name
  /-- The colon behind a name. -/
  | colon
  /-- A comma or the end of what is open. -/
  | next
  /-- Nothing: this value is the whole text. -/
  | nothing (result : Json)

/-- A complete value in its place. -/
def put (v : Json) : List Frame → Option (List Frame × Need)
  | [] => some ([], .nothing v)
  | .array items :: rest => some (.array (v :: items) :: rest, .next)
  | .member name :: .object members :: rest => some (.object ((name, v) :: members) :: rest, .next)
  | _ => none

/-- The start of a value. -/
def open? (frames : List Frame) : Token → Option (List Frame × Need)
  | .word v => put v frames
  | .text s => put (string s) frames
  | .openBracket => some (.array [] :: frames, .item)
  | .openBrace => some (.object [] :: frames, .member)
  | _ => none

/-- The end of the innermost array or object. -/
def close? : List Frame → Token → Option (List Frame × Need)
  | .array items :: rest, .closeBracket => put (array items.reverse) rest
  | .object members :: rest, .closeBrace => put (object members.reverse) rest
  | _, _ => none

/-- The name of a member. -/
def name? (frames : List Frame) : Token → Option (List Frame × Need)
  | .text s => some (.member s :: frames, .colon)
  | _ => none

/-- One token further. -/
def advance (frames : List Frame) : Need → Token → Option (List Frame × Need)
  | .value, token => open? frames token
  | .item, token => (close? frames token).or (open? frames token)
  | .member, token => (close? frames token).or (name? frames token)
  | .name, token => name? frames token
  | .colon, .colon => some (frames, .value)
  | .next, .comma =>
    match frames with
    | .array _ :: _ => some (frames, .value)
    | .object _ :: _ => some (frames, .name)
    | _ => none
  | .next, token => close? frames token
  | _, _ => none

/-- The value that the tokens complete. -/
def build? (frames : List Frame) (need : Need) : List Token → Option Json
  | [] =>
    match need with
    | .nothing v => some v
    | _ => none
  | token :: tokens =>
    match advance frames need token with
    | some (frames, need) => build? frames need tokens
    | none => none

/-- The value that characters write. -/
def readChars? (cs : List Char) : Option Json := do
  let tokens ← Token.scan? cs
  build? [] .value tokens

/-- The value that a text writes. -/
def read? (s : String) : Option Json := readChars? s.toList

end CodeQuality.Json
