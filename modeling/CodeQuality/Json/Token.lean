import CodeQuality.Json.Basic
import CodeQuality.Text

/-!
# Tokens of JSON texts

`Token.scan?` walks through the characters of a text once. A word is a longest run of characters
that are neither blank nor punctuation nor a quote; it must be a numeral or one of the three names.
-/

namespace CodeQuality.Json

/-- The smallest parts of a JSON text. -/
inductive Token where
  | openBrace
  | closeBrace
  | openBracket
  | closeBracket
  | colon
  | comma
  /-- A string literal. -/
  | text (literal : Option String)
  /-- A numeral or one of the names `true`, `false` and `null`. -/
  | word (value : Json)

/-- A part of a string literal: a character, or half of a surrogate pair. -/
inductive Piece where
  | char (c : Char)
  | high (unit : Nat)
  | low (unit : Nat)

namespace Piece

/-- The part that an escaped code unit is. -/
def ofUnit (unit : Nat) : Piece :=
  if 0xD800 ≤ unit ∧ unit < 0xDC00 then high unit
  else if 0xDC00 ≤ unit ∧ unit < 0xE000 then low unit
  else char (Char.ofNat unit)

/-- The characters of a literal, if every half of a surrogate pair meets its other half. -/
def join? : List Piece → Option (List Char)
  | [] => some []
  | char c :: rest => (join? rest).map (c :: ·)
  | high h :: low l :: rest =>
    (join? rest).map (Char.ofNat (0x10000 + (h - 0xD800) * 0x400 + (l - 0xDC00)) :: ·)
  | _ => none

/-- The text of a literal whose parts were collected last first. -/
def text (seen : List Piece) : Option String := (join? seen.reverse).map String.ofList

end Piece

namespace Token

/-- Blanks between tokens. -/
def isGap (c : Char) : Bool := c == ' ' || c == '\n' || c == '\r' || c == '\t'

/-- The token that a punctuation character is. -/
def punctuation? : Char → Option Token
  | '{' => some openBrace
  | '}' => some closeBrace
  | '[' => some openBracket
  | ']' => some closeBracket
  | ':' => some colon
  | ',' => some comma
  | _ => none

/-- The value that a word is. -/
def word? (cs : List Char) : Option Json :=
  if cs = "true".toList then some (.bool true)
  else if cs = "false".toList then some (.bool false)
  else if cs = "null".toList then some .null
  else (Numeral.read? cs).map .number

/-- The character that a letter behind a backslash stands for. -/
def escaped? : Char → Option Char
  | '"' => some '"'
  | '\\' => some '\\'
  | '/' => some '/'
  | 'b' => some '\x08'
  | 'f' => some '\x0c'
  | 'n' => some '\n'
  | 'r' => some '\r'
  | 't' => some '\t'
  | _ => none

/-- Where in a text the scan is. What was seen of a word or a literal is kept last first. -/
inductive Place where
  | between
  | word (seen : List Char)
  | text (seen : List Piece)
  | escape (seen : List Piece)
  /-- In an escaped code unit with `left` hexadecimal digits to come. -/
  | unit (seen : List Piece) (left value : Nat)

/-- A place between tokens, or at the start of one, after the character `c`. -/
def start (tokens : List Token) (c : Char) : List Token × Place :=
  if isGap c then (tokens, .between)
  else if c = '"' then (tokens, .text [])
  else match punctuation? c with
    | some token => (token :: tokens, .between)
    | none => (tokens, .word [c])

/-- One character further. The tokens found are kept last first. -/
def step (tokens : List Token) : Place → Char → Option (List Token × Place)
  | .between, c => some (start tokens c)
  | .word seen, c =>
    if isGap c ∨ c = '"' ∨ (punctuation? c).isSome then
      (word? seen.reverse).map fun j => start (word j :: tokens) c
    else some (tokens, .word (c :: seen))
  | .text seen, c =>
    if c = '"' then some (text (Piece.text seen) :: tokens, .between)
    else if c = '\\' then some (tokens, .escape seen)
    else if c < ' ' then none
    else some (tokens, .text (.char c :: seen))
  | .escape seen, c =>
    if c = 'u' then some (tokens, .unit seen 4 0)
    else (escaped? c).map fun c => (tokens, .text (.char c :: seen))
  | .unit seen left value, c =>
    (Text.hexValue? c).map fun d =>
      let value := 16 * value + d
      if left ≤ 1 then (tokens, .text (Piece.ofUnit value :: seen))
      else (tokens, .unit seen (left - 1) value)

/-- The tokens when the text ends at a place. -/
def finish? (tokens : List Token) : Place → Option (List Token)
  | .between => some tokens.reverse
  | .word seen => (word? seen.reverse).map fun j => (word j :: tokens).reverse
  | _ => none

/-- The tokens of the characters from a place on. -/
def scanFrom? (tokens : List Token) (place : Place) : List Char → Option (List Token)
  | [] => finish? tokens place
  | c :: cs =>
    match step tokens place c with
    | some (tokens, place) => scanFrom? tokens place cs
    | none => none

/-- The tokens of a text. -/
def scan? (cs : List Char) : Option (List Token) := scanFrom? [] .between cs

end Token

end CodeQuality.Json
