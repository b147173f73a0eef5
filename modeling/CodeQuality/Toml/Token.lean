import CodeQuality.Text

/-!
# Tokens of TOML texts

What a word means depends on where it stands: `1.5` is a number behind an equals sign and a key of
two parts in front of one. The tokens are therefore marks, newlines, and phrases, which are all that
stands between two of them; a phrase keeps its words, dots, strings and blanks.

`Token.scan?` walks through the characters once. It drops comments and refuses control characters in
them, carriage returns that belong to no newline, and strings that are malformed.
-/

namespace CodeQuality.Toml

/-- Punctuation that structures a text. -/
inductive Mark where
  | equals
  | comma
  | openBracket
  | closeBracket
  | openBrace
  | closeBrace
deriving DecidableEq

/-- The mark that a character is. -/
def mark? : Char → Option Mark
  | '=' => some .equals
  | ',' => some .comma
  | '[' => some .openBracket
  | ']' => some .closeBracket
  | '{' => some .openBrace
  | '}' => some .closeBrace
  | _ => none

/-- A part of a phrase. -/
inductive Piece where
  | blank (c : Char)
  | dot
  | word (cs : List Char)
  /-- A string; one that may run over several lines cannot be part of a key. -/
  | text (multiline : Bool) (cs : List Char)
deriving DecidableEq

/-- A token. -/
inductive Token where
  | mark (m : Mark)
  | newline
  | phrase (pieces : List Piece)
deriving DecidableEq

/-- The quote of a string. Only in basic strings a backslash has a meaning. -/
inductive Quote where
  | basic
  | literal
deriving DecidableEq

/-- The character of a quote. -/
def Quote.char : Quote → Char
  | basic => '"'
  | literal => '\''

/-- The quote that a character is. -/
def quote? (c : Char) : Option Quote :=
  if c = '"' then some .basic else if c = '\'' then some .literal else none

/-- What was found, last first: tokens, and the pieces of the phrase behind them. -/
structure Scan where
  tokens : List Token
  pieces : List Piece

namespace Scan

/-- A further piece. -/
def piece (s : Scan) (p : Piece) : Scan := { s with pieces := p :: s.pieces }

/-- The end of a phrase. -/
def close (s : Scan) : Scan :=
  if s.pieces.isEmpty then s else ⟨.phrase s.pieces.reverse :: s.tokens, []⟩

/-- A further token. -/
def token (s : Scan) (t : Token) : Scan := ⟨t :: s.close.tokens, []⟩

/-- A string that is complete. Its characters come last first. -/
def text (s : Scan) (multiline : Bool) (seen : List Char) : Scan :=
  s.piece (.text multiline seen.reverse)

end Scan

/-- Where in a text the scan is. What was seen of a word or a string is kept last first. -/
inductive Place where
  | between
  | word (seen : List Char)
  | comment
  /-- Behind a carriage return outside of strings. -/
  | returned
  /-- Behind one or two quotes that open something. -/
  | opening (q : Quote) (twice : Bool)
  /-- In a string on one line. -/
  | line (q : Quote) (seen : List Char)
  /-- At the start of a string that may run over several lines; a newline here does not count. -/
  | blockStart (q : Quote)
  /-- In a string that may run over several lines, behind `quotes` quotes in a row. -/
  | block (q : Quote) (seen : List Char) (quotes : Nat)
  /-- Behind a carriage return in such a string, or at its start. -/
  | blockReturned (q : Quote) (seen : List Char) (atStart : Bool)
  /-- Behind a backslash. -/
  | escape (multiline : Bool) (seen : List Char)
  /-- In an escaped code point with `left` digits to come. -/
  | codePoint (multiline : Bool) (seen : List Char) (left value : Nat)
  /-- In the blanks and newlines that a backslash removes, which must hold a newline. -/
  | gap (seen : List Char) (broken : Bool)
  /-- Behind a carriage return in such blanks. -/
  | gapReturned (seen : List Char)

/-- Blanks within a line. -/
def isBlank (c : Char) : Bool := c == ' ' || c == '\t'

/-- Control characters, which stand neither in strings nor in comments; newlines and tabs have
meanings of their own. -/
def isControl (c : Char) : Bool := (c < ' ' && c != '\t') || c == '\x7f'

/-- Whether a character continues a word. A quote does, because only at the start of a word it opens
a string. -/
def isWordChar (c : Char) : Bool :=
  !(isBlank c || c == '\n' || c == '\r' || c == '#' || c == '.' || (mark? c).isSome)

namespace Token

/-- The step from a place between words. -/
def start (s : Scan) (c : Char) : Option (Scan × Place) :=
  if isBlank c then some (s.piece (.blank c), .between)
  else if c = '\n' then some (s.token .newline, .between)
  else if c = '\r' then some (s, .returned)
  else if c = '#' then some (s, .comment)
  else if c = '.' then some (s.piece .dot, .between)
  else match quote? c, mark? c with
    | some q, _ => some (s, .opening q false)
    | none, some m => some (s.token (.mark m), .between)
    | none, none => some (s, .word [c])

/-- The step inside a string on one line. -/
def stepLine (s : Scan) (q : Quote) (seen : List Char) (c : Char) : Option (Scan × Place) :=
  if c = q.char then some (s.text false seen, .between)
  else if c = '\\' ∧ q = .basic then some (s, .escape false seen)
  else if isControl c then none
  else some (s, .line q (c :: seen))

/-- The step inside a string that may run over several lines. Up to two quotes in a row belong to
the string, and up to two more than the three that end it. -/
def stepBlock (s : Scan) (q : Quote) (seen : List Char) (quotes : Nat) (c : Char) :
    Option (Scan × Place) :=
  if c = q.char then
    if quotes < 5 then some (s, .block q seen (quotes + 1)) else none
  else if 3 ≤ quotes then start (s.text true (List.replicate (quotes - 3) q.char ++ seen)) c
  else
    let seen := List.replicate quotes q.char ++ seen
    if c = '\\' ∧ q = .basic then some (s, .escape true seen)
    else if c = '\r' then some (s, .blockReturned q seen false)
    else if isControl c ∧ c ≠ '\n' then none
    else some (s, .block q (c :: seen) 0)

/-- The character that a letter behind a backslash stands for. -/
def escaped? : Char → Option Char
  | 'b' => some '\x08'
  | 't' => some '\t'
  | 'n' => some '\n'
  | 'f' => some '\x0c'
  | 'r' => some '\r'
  | 'e' => some '\x1b'
  | '"' => some '"'
  | '\\' => some '\\'
  | _ => none

/-- The number of hexadecimal digits that a letter behind a backslash announces. -/
def codeLength? : Char → Option Nat
  | 'x' => some 2
  | 'u' => some 4
  | 'U' => some 8
  | _ => none

/-- The place behind an escaped character. -/
def resume (multiline : Bool) (seen : List Char) : Place :=
  if multiline then .block .basic seen 0 else .line .basic seen

/-- The character of a code point, if it has one. -/
def codeChar? (n : Nat) : Option Char := if n.isValidChar then some (Char.ofNat n) else none

/-- One character further. -/
def step (s : Scan) : Place → Char → Option (Scan × Place)
  | .between, c => start s c
  | .word seen, c =>
    if isWordChar c then some (s, .word (c :: seen)) else start (s.piece (.word seen.reverse)) c
  | .comment, c =>
    if c = '\n' then some (s.token .newline, .between)
    else if c = '\r' then some (s, .returned)
    else if isControl c then none
    else some (s, .comment)
  | .returned, c => if c = '\n' then some (s.token .newline, .between) else none
  | .opening q false, c => if c = q.char then some (s, .opening q true) else stepLine s q [] c
  | .opening q true, c => if c = q.char then some (s, .blockStart q) else start (s.text false []) c
  | .line q seen, c => stepLine s q seen c
  | .blockStart q, c =>
    if c = '\n' then some (s, .block q [] 0)
    else if c = '\r' then some (s, .blockReturned q [] true)
    else stepBlock s q [] 0 c
  | .block q seen quotes, c => stepBlock s q seen quotes c
  | .blockReturned q seen atStart, c =>
    if c = '\n' then some (s, .block q (if atStart then [] else '\n' :: seen) 0) else none
  | .escape multiline seen, c =>
    match escaped? c, codeLength? c with
    | some e, _ => some (s, resume multiline (e :: seen))
    | none, some n => some (s, .codePoint multiline seen n 0)
    | none, none =>
      if !multiline then none
      else if isBlank c then some (s, .gap seen false)
      else if c = '\n' then some (s, .gap seen true)
      else if c = '\r' then some (s, .gapReturned seen)
      else none
  | .codePoint multiline seen left value, c =>
    (Text.hexValue? c).bind fun d =>
      let value := 16 * value + d
      if left ≤ 1 then (codeChar? value).map fun e => (s, resume multiline (e :: seen))
      else some (s, .codePoint multiline seen (left - 1) value)
  | .gap seen broken, c =>
    if isBlank c then some (s, .gap seen broken)
    else if c = '\n' then some (s, .gap seen true)
    else if c = '\r' then some (s, .gapReturned seen)
    else if broken then stepBlock s .basic seen 0 c
    else none
  | .gapReturned seen, c => if c = '\n' then some (s, .gap seen true) else none

/-- What was found when the text ends at a place. -/
def finish? (s : Scan) : Place → Option Scan
  | .between | .comment => some s.close
  | .word seen => some (s.piece (.word seen.reverse)).close
  | .opening _ true => some (s.text false []).close
  | .block q seen quotes =>
    if 3 ≤ quotes then
      some (s.text true (List.replicate (quotes - 3) q.char ++ seen)).close
    else none
  | _ => none

/-- The tokens of the characters from a place on. -/
def scanFrom? (s : Scan) (place : Place) : List Char → Option (List Token)
  | [] => (finish? s place).map fun s => s.tokens.reverse
  | c :: cs =>
    match step s place c with
    | some (s, place) => scanFrom? s place cs
    | none => none

/-- The tokens of a text. -/
def scan? (cs : List Char) : Option (List Token) := scanFrom? ⟨[], []⟩ .between cs

end Token

end CodeQuality.Toml
