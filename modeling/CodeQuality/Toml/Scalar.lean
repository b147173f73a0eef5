import CodeQuality.Decimal.Basic
import CodeQuality.Decimal.Numeral
import CodeQuality.Text
import CodeQuality.Time.Rfc3339
import CodeQuality.Toml.Value

/-!
# TOML scalars

Values that are a single word: truth values, integers of four bases, floating-point numbers, dates
and times. Digits may be grouped by single underscores. Numbers that are too large for 128 bits or
for floating point, and some words that only start like a number, are unreadable values.
-/

namespace CodeQuality.Toml

/-! ## Digits -/

/-- Digits without the underscores between them. -/
def ungroup? (isDigit : Char → Bool) (cs : List Char) : Option (List Char) :=
  let groups := cs.splitOn '_'
  if groups.all fun g => !g.isEmpty && g.all isDigit then some groups.flatten else none

/-- Decimal digits that do not start with a needless zero. -/
def wholeDigits? (cs : List Char) : Option (List Char) :=
  (ungroup? Char.isDigit cs).filter fun ds => ds.head? != some '0' || ds == ['0']

/-- The value of digits in a base. -/
def valueIn (base : Nat) (ds : List Char) : Nat :=
  ds.foldl (fun n c => base * n + (Text.hexValue? c).getD 0) 0

/-- Whether a character is a digit of a base up to sixteen. -/
def isDigitIn (base : Nat) (c : Char) : Bool := (Text.hexValue? c).any (· < base)

/-- A sign at the front: whether it is a minus, and what follows. -/
def takeSign : List Char → Bool × List Char
  | '-' :: cs => (true, cs)
  | '+' :: cs => (false, cs)
  | cs => (false, cs)

/-! ## Numbers -/

/-- The base that a letter behind a zero stands for. -/
def base? : Char → Option Nat
  | 'x' => some 16
  | 'o' => some 8
  | 'b' => some 2
  | _ => none

/-- The value of an integer, which has at most 128 bits. -/
def Value.ofInt (n : Int) : Value :=
  if -Int.pow 2 127 ≤ n ∧ n < Int.pow 2 128 then .integer n else .unreadable

/-- The value of a number with a fraction or an exponent, which floating point must hold. -/
def Value.ofFinite (x : Float) : Value := if x.isFinite then .float x else .unreadable

/-- An integer behind the mark of its base, which has no sign. Without digits it is no number. -/
def basedInteger? : List Char → Option Value
  | '0' :: mark :: cs => do
    let base ← base? mark
    if cs.isEmpty then return .unreadable
    let ds ← ungroup? (isDigitIn base) cs
    return .ofInt (valueIn base ds)
  | _ => none

/-- Whether digits that an underscore follows start an integer. The groups behind it need not hold
digits only: each has to start with a hexadecimal digit, and to end in one if a further group
follows. With a point, an exponent or a space it would be a number of another kind. -/
def isGrouped (cs : List Char) : Bool :=
  match cs.splitOn '_' with
  | first :: group :: groups =>
    !first.isEmpty && first.all Char.isDigit && first.head? != some '0' &&
      (group :: groups).all (·.head?.any (isDigitIn 16)) &&
      (group :: groups).dropLast.all (·.getLast?.any (isDigitIn 16)) &&
      cs.all fun c => !(c == '.' || c == 'e' || c == 'E' || c == ' ')
  | _ => false

/-- An integer. One whose groups do not hold decimal digits only is no number. -/
def integer? (cs : List Char) : Option Value :=
  let (negative, rest) := takeSign cs
  match wholeDigits? rest with
  | some ds => some (.ofInt (if negative then -(Numeral.value ds : Int) else Numeral.value ds))
  | none => (basedInteger? cs).or (if isGrouped rest then some .unreadable else none)

/-- The exponent of a number: an optional sign and digits. -/
def exponent? (cs : List Char) : Option Int :=
  let (negative, rest) := takeSign cs
  (ungroup? Char.isDigit rest).map fun ds =>
    if negative then -(Numeral.value ds : Int) else Numeral.value ds

/-- A number with a fraction or an exponent, without its sign; infinite if it is too large. -/
def unsigned? (cs : List Char) : Option Float := do
  let (mantissa, power) := cs.span fun c => c != 'e' && c != 'E'
  let (whole, fraction) := mantissa.span (· != '.')
  if fraction.isEmpty && power.isEmpty then none
  else
    let whole ← wholeDigits? whole
    let fraction ← if fraction.isEmpty then some [] else ungroup? Char.isDigit fraction.tail
    let power ← if power.isEmpty then some 0 else exponent? power.tail
    return Decimal.nearest (Numeral.value (whole ++ fraction)) (power - fraction.length)

/-- A floating-point number, which may be infinite or none. -/
def float? (cs : List Char) : Option Value :=
  let (negative, rest) := takeSign cs
  if rest = "inf".toList then some (.float (Numeral.signed negative (1.0 / 0.0)))
  else if rest = "nan".toList then some (.float (Numeral.signed negative (0.0 / 0.0)))
  else (unsigned? rest).map fun x => .ofFinite (Numeral.signed negative x)

/-! ## Dates and times -/

open Time

/-- Passes over a given character. -/
def skip? (c : Char) : List Char → Option (List Char)
  | d :: cs => if d = c then some cs else none
  | [] => none

/-- Passes over a date of the calendar. -/
def skipDate? (cs : List Char) : Option (List Char) := do
  let (century, cs) ← readPair cs
  let (year, cs) ← readPair cs
  let cs ← skip? '-' cs
  let (month, cs) ← readPair cs
  let cs ← skip? '-' cs
  let (day, cs) ← readPair cs
  if (Date.mk (100 * century + year : Nat) month day).valid then some cs else none

/-- Passes over a fraction of a second, if there is one. -/
def skipFraction? : List Char → Option (List Char)
  | '.' :: cs => if cs.head?.any Char.isDigit then some (cs.dropWhile Char.isDigit) else none
  | cs => some cs

/-- Passes over the seconds of a time, if there are any. -/
def skipSeconds? : List Char → Option (List Char)
  | ':' :: cs => do
    let (second, cs) ← readPair cs
    if second ≤ 60 then skipFraction? cs else none
  | cs => some cs

/-- Passes over a time of day. -/
def skipTime? (cs : List Char) : Option (List Char) := do
  let (hour, cs) ← readPair cs
  let cs ← skip? ':' cs
  let (minute, cs) ← readPair cs
  if hour < 24 ∧ minute < 60 then skipSeconds? cs else none

/-- Passes over an offset from UTC, if there is one. -/
def skipOffset? : List Char → Option (List Char)
  | [] => some []
  | c :: cs =>
    if c = 'Z' ∨ c = 'z' then some cs
    else if c = '+' ∨ c = '-' then do
      let (hour, cs) ← readPair cs
      let cs ← skip? ':' cs
      let (minute, cs) ← readPair cs
      if hour < 24 ∧ minute < 60 then some cs else none
    else none

/-- Whether characters are a time of day. -/
def isTime (cs : List Char) : Bool := skipTime? cs == some []

/-- Whether characters are a time of day with an optional offset. -/
def isTimeWithOffset (cs : List Char) : Bool := ((skipTime? cs).bind skipOffset?) == some []

/-- Whether characters are a date, a time of day, or both. -/
def isMoment (cs : List Char) : Bool :=
  match skipDate? cs with
  | some [] => true
  | some (c :: rest) => (c == 'T' || c == 't' || c == ' ') && isTimeWithOffset rest
  | none => isTime cs

/-! ## Words -/

/-- The value that a word is. -/
def scalar? (cs : List Char) : Option Value :=
  if cs = "true".toList then some (.boolean true)
  else if cs = "false".toList then some (.boolean false)
  else
    (integer? cs).or ((float? cs).or
      (if isMoment cs then some (.moment (String.ofList cs)) else none))

end CodeQuality.Toml
