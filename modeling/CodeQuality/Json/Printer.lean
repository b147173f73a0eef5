import CodeQuality.Json.Basic
import CodeQuality.Text

/-!
# Writing JSON texts

A layout says what stands behind a colon and where lines break. `compact` breaks none; `pretty`
gives every item and member a line of its own, indented by two blanks for each array or object
around it.
-/

namespace CodeQuality.Json

/-- The blanks of a written JSON text. -/
structure Layout where
  /-- In front of an item at the given depth, and in front of the closing bracket. -/
  line : Nat → List Char
  /-- Behind a colon. -/
  afterColon : List Char

/-- No blanks at all. -/
def compact : Layout := ⟨fun _ => [], []⟩

/-- One line for each item and member. -/
def pretty : Layout := ⟨fun depth => '\n' :: List.replicate (2 * depth) ' ', [' ']⟩

/-- A character inside a string literal: quote, backslash and control characters are escaped. -/
def escape (c : Char) : List Char :=
  match c with
  | '"' => ['\\', '"']
  | '\\' => ['\\', '\\']
  | '\x08' => ['\\', 'b']
  | '\x0c' => ['\\', 'f']
  | '\n' => ['\\', 'n']
  | '\r' => ['\\', 'r']
  | '\t' => ['\\', 't']
  | c =>
    if c < ' ' then
      ['\\', 'u', '0', '0', Text.hexDigit (c.toNat / 16), Text.hexDigit (c.toNat % 16)]
    else [c]

/-- A string literal. One without a text is written as half of a surrogate pair. -/
def literal : Option String → List Char
  | some s => '"' :: s.toList.flatMap escape ++ ['"']
  | none => "\"\\ud800\"".toList

mutual

/-- The characters of a value inside `depth` arrays and objects. -/
def chars (layout : Layout) (depth : Nat) : Json → List Char
  | null => "null".toList
  | bool b => (if b then "true" else "false").toList
  | number n => n.chars
  | string s => literal s
  | array [] => ['[', ']']
  | array (item :: items) =>
    '[' :: layout.line (depth + 1) ++ chars layout (depth + 1) item ++
      itemChars layout (depth + 1) items ++ layout.line depth ++ [']']
  | object [] => ['{', '}']
  | object ((name, value) :: members) =>
    '{' :: layout.line (depth + 1) ++ literal name ++ ':' :: layout.afterColon ++
      chars layout (depth + 1) value ++ memberChars layout (depth + 1) members ++
      layout.line depth ++ ['}']

/-- The further items of an array, each behind a comma. -/
def itemChars (layout : Layout) (depth : Nat) : List Json → List Char
  | [] => []
  | item :: items =>
    ',' :: layout.line depth ++ chars layout depth item ++ itemChars layout depth items

/-- The further members of an object, each behind a comma. -/
def memberChars (layout : Layout) (depth : Nat) : List (Option String × Json) → List Char
  | [] => []
  | (name, value) :: members =>
    ',' :: layout.line depth ++ literal name ++ ':' :: layout.afterColon ++
      chars layout depth value ++ memberChars layout depth members

end

/-- The text of a value. -/
def write (layout : Layout) (v : Json) : String := String.ofList (chars layout 0 v)

end CodeQuality.Json
