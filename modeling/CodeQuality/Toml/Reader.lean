import CodeQuality.Toml.Scalar
import CodeQuality.Toml.Token

/-!
# Reading TOML texts

A text is a sequence of statements, one on a line: a header that opens a table, or a key with a
value. Only inside of brackets and braces a statement goes on over several lines. Values are read in
one pass through their tokens, with the arrays and tables that are still open on a stack.
-/

namespace CodeQuality.Toml

/-! ## Phrases -/

/-- Whether a piece is a blank. -/
def Piece.isBlank : Piece → Bool
  | blank _ => true
  | _ => false

/-- Whether a character may stand in a key without quotes. -/
def isKeyChar (c : Char) : Bool := c.isAlphanum || c == '-' || c == '_'

/-- The part of a key that a piece is. -/
def Piece.keyPart? : Piece → Option String
  | word cs => if cs.all isKeyChar then some (String.ofList cs) else none
  | text false cs => some (String.ofList cs)
  | _ => none

/-- Parts of a key with dots between them. -/
def keyParts? : List Piece → Option (List String)
  | [p] => p.keyPart?.map ([·])
  | p :: .dot :: rest => do
    let part ← p.keyPart?
    let parts ← keyParts? rest
    return part :: parts
  | _ => none

/-- How many parts a key may have, and how many arrays and tables may be open at a time. -/
def nestingLimit : Nat := 80

/-- The key that a phrase is. -/
def key? (pieces : List Piece) : Option (List String) :=
  (keyParts? (pieces.filter fun p => !p.isBlank)).filter (·.length ≤ nestingLimit)

/-- The characters of a phrase that holds no strings. -/
def phraseChars? : List Piece → Option (List Char)
  | [] => some []
  | .blank c :: rest => (phraseChars? rest).map (c :: ·)
  | .dot :: rest => (phraseChars? rest).map ('.' :: ·)
  | .word cs :: rest => (phraseChars? rest).map (cs ++ ·)
  | .text _ _ :: _ => none

/-- A phrase without the blanks at both ends. -/
def stripPhrase (pieces : List Piece) : List Piece :=
  ((pieces.dropWhile (·.isBlank)).reverse.dropWhile (·.isBlank)).reverse

/-- The value that a phrase is. -/
def phraseValue? (pieces : List Piece) : Option Value :=
  match stripPhrase pieces with
  | [.text _ cs] => some (.string (String.ofList cs))
  | ps => (phraseChars? ps).bind scalar?

/-- Whether a token is nothing but blanks. -/
def Token.isBlank : Token → Bool
  | phrase pieces => pieces.all (·.isBlank)
  | _ => false

/-! ## Values -/

/-- What is still open, innermost first. The items of an array are kept last first. -/
inductive Frame where
  | array (items : List Value)
  | table (entries : Entries)
  /-- An entry of the table below whose value is being read. -/
  | entry (key : List String)

/-- What may follow. -/
inductive Need where
  /-- A value. -/
  | value
  /-- An item of an array, or its end. -/
  | item
  /-- A key of a table, or its end. -/
  | member
  /-- The equals sign behind a key. -/
  | equals
  /-- A comma or the end of what is open. -/
  | next
  /-- Nothing: this is the whole value. -/
  | nothing (result : Value)

/-- A complete value in its place. -/
def put? (v : Value) : List Frame → Option (List Frame × Need)
  | [] => some ([], .nothing v)
  | .array items :: rest => some (.array (v :: items) :: rest, .next)
  | .entry key :: .table entries :: rest =>
    (entries.assign? v key).map fun entries => (.table entries :: rest, .next)
  | _ => none

/-- Whether an array or a table is open, and not the entry of one. -/
def Frame.isNest : Frame → Bool
  | array _ | table _ => true
  | entry _ => false

/-- A further array or table that is open. -/
def nest? (inner : Frame) (need : Need) (frames : List Frame) : Option (List Frame × Need) :=
  if frames.countP (·.isNest) < nestingLimit then some (inner :: frames, need) else none

/-- The start of a value. -/
def open? (frames : List Frame) : Token → Option (List Frame × Need)
  | .phrase pieces => (phraseValue? pieces).bind fun v => put? v frames
  | .mark .openBracket => nest? (.array []) .item frames
  | .mark .openBrace => nest? (.table []) .member frames
  | _ => none

/-- The end of the innermost array or table. -/
def close? : List Frame → Token → Option (List Frame × Need)
  | .array items :: rest, .mark .closeBracket => put? (.array .brackets items.reverse) rest
  | .table entries :: rest, .mark .closeBrace => put? (.table .inline entries) rest
  | _, _ => none

/-- The key of an entry. -/
def member? (frames : List Frame) : Token → Option (List Frame × Need)
  | .phrase pieces => (key? pieces).map fun key => (.entry key :: frames, .equals)
  | _ => none

/-- One token further, blanks and newlines apart. -/
def advance (frames : List Frame) : Need → Token → Option (List Frame × Need)
  | .value, token => open? frames token
  | .item, token => (close? frames token).or (open? frames token)
  | .member, token => (close? frames token).or (member? frames token)
  | .equals, .mark .equals => some (frames, .value)
  | .next, .mark .comma =>
    match frames with
    | .array _ :: _ => some (frames, .item)
    | .table _ :: _ => some (frames, .member)
    | _ => none
  | .next, token => close? frames token
  | _, _ => none

/-- The value that the tokens complete. Newlines, which a statement has only inside of brackets and
braces, may stand between any two of them. -/
def build? (frames : List Frame) (need : Need) : List Token → Option Value
  | [] =>
    match need with
    | .nothing v => some v
    | _ => none
  | token :: tokens =>
    if token.isBlank ∨ token = .newline then build? frames need tokens
    else
      match advance frames need token with
      | some (frames, need) => build? frames need tokens
      | none => none

/-! ## Statements -/

/-- The depth of brackets and braces behind a token. -/
def Token.depth (before : Nat) : Token → Nat
  | mark .openBracket | mark .openBrace => before + 1
  | mark .closeBracket | mark .closeBrace => before - 1
  | _ => before

/-- The tokens of each statement. A statement ends at a newline outside of brackets and braces; what
was seen of it is kept last first. -/
def splitLines (depth : Nat) (seen : List Token) : List Token → List (List Token)
  | [] => [seen.reverse]
  | token :: tokens =>
    if token = .newline ∧ depth = 0 then seen.reverse :: splitLines 0 [] tokens
    else splitLines (token.depth depth) (token :: seen) tokens

/-- A statement. -/
inductive Statement where
  | header (key : List String)
  | itemHeader (key : List String)
  | entry (key : List String) (value : Value)

/-- The statement that tokens without blanks around them are. -/
def statement? : List Token → Option Statement
  | [.mark .openBracket, .phrase key, .mark .closeBracket] => (key? key).map .header
  | [.mark .openBracket, .mark .openBracket, .phrase key, .mark .closeBracket,
      .mark .closeBracket] => (key? key).map .itemHeader
  | .phrase key :: .mark .equals :: tokens => do
    let key ← key? key
    let value ← build? [] .value tokens
    return .entry key value
  | _ => none

/-- The statements of a text; lines without any are passed over. -/
def statements? (tokens : List Token) : Option (List Statement) :=
  let lines := (splitLines 0 [] tokens).map fun line =>
    ((line.dropWhile (·.isBlank)).reverse.dropWhile (·.isBlank)).reverse
  (lines.filter (!·.isEmpty)).mapM statement?

/-! ## Documents -/

/-- A document as far as it is read: its entries, and the table that the last header opened. -/
structure Document where
  entries : Entries
  current : List String

/-- The document with a table opened by a header. -/
def Document.open? (doc : Document) (key : List String)
    (change? : String → Entries → Option Entries) : Option Document := do
  let last ← key.getLast?
  let entries ← doc.entries.within? (change? last) key.dropLast
  return ⟨entries, key⟩

/-- The document after a further statement. -/
def Document.add? (doc : Document) : Statement → Option Document
  | .header key => doc.open? key Entries.openTable?
  | .itemHeader key => doc.open? key Entries.openItem?
  | .entry key value =>
    (doc.entries.within? (·.assign? value key) doc.current).map fun entries => { doc with entries }

/-- Characters without the mark of their byte order. -/
def skipByteOrderMark : List Char → List Char
  | c :: cs => if c = '\ufeff' then cs else c :: cs
  | [] => []

/-- The entries that a text writes. -/
def read? (s : String) : Option Entries := do
  let tokens ← Token.scan? (skipByteOrderMark s.toList)
  let statements ← statements? tokens
  let doc ← statements.foldlM Document.add? ⟨[], []⟩
  return doc.entries

end CodeQuality.Toml
