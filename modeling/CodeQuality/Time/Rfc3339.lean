import CodeQuality.Time.Instant
import CodeQuality.Text
import CodeQuality.Decimal.Numeral

/-!
# Timestamps

The text form of instants, `2024-03-01T12:00:00.250Z`. Writing always uses UTC, the shortest of no,
three, six and nine digits of a second that is exact, and a sign for years outside `0` to `9999`.

Reading converts to UTC and accepts more: an offset in place of `Z`, blanks between the parts,
fields of fewer digits, a blank or a small `t` between date and time, and any number of digits of a
second, of which nine count. A date that the calendar does not have is refused; a minute may have
a sixty-first second.
-/

namespace CodeQuality

namespace Time

/-! ## Reading -/

/-- A reader takes what it reads from the front of the characters. -/
abbrev Reader (τ : Type) := List Char → Option (τ × List Char)

/-- The value of at least one and at most `most` digits at the front. -/
def readNumber (most : Nat) : Reader Nat := fun cs =>
  let ds := (cs.take most).takeWhile Char.isDigit
  if ds.isEmpty then none else some (Numeral.value ds, cs.drop ds.length)

/-- A field of at most `most` digits with blanks in front. -/
def readField (most : Nat) : Reader Nat := fun cs => readNumber most (Text.skipBlanks cs)

/-- A year: up to four digits, or any number of digits behind a sign. -/
def readYear : Reader Int := fun cs =>
  match Text.skipBlanks cs with
  | '-' :: cs => (readNumber cs.length cs).map fun p => (-(p.1 : Int), p.2)
  | '+' :: cs => (readNumber cs.length cs).map fun p => ((p.1 : Int), p.2)
  | cs => (readNumber 4 cs).map fun p => ((p.1 : Int), p.2)

/-- A separator with blanks in front. -/
def readMark (c : Char) (cs : List Char) : Option (List Char) :=
  match Text.skipBlanks cs with
  | d :: cs => if d = c then some cs else none
  | [] => none

/-- The nanoseconds behind a decimal point; without one there are none. Digits after the ninth are
dropped. -/
def readFraction : Reader Nat
  | '.' :: cs =>
    let ds := cs.takeWhile Char.isDigit
    if ds.isEmpty then none
    else
      let kept := ds.take 9
      some (Numeral.value kept * Nat.pow 10 (9 - kept.length), cs.drop ds.length)
  | cs => some (0, cs)

/-- The mark between date and time. -/
def readDivider : List Char → Option (List Char)
  | c :: cs => if c = 'T' ∨ c = 't' ∨ c = ' ' then some cs else none
  | [] => none

/-- Exactly two digits. -/
def readPair : Reader Nat
  | a :: b :: cs => if a.isDigit ∧ b.isDigit then some (Numeral.value [a, b], cs) else none
  | _ => none

/-- Hours and minutes east of Greenwich, in seconds; colons and blanks between them are optional. -/
def readHoursMinutes (negative : Bool) : Reader Int := fun cs => do
  let (hours, cs) ← readPair cs
  let (minutes, cs) ← readPair (cs.dropWhile fun c => c == ':' || Text.isBlank c)
  if minutes < 60 then
    let seconds : Int := (hours * 3600 + minutes * 60 : Nat)
    return (if negative then -seconds else seconds, cs)
  else none

/-- The offset from UTC in seconds. -/
def readOffset : Reader Int := fun cs =>
  match Text.skipBlanks cs with
  | '+' :: cs => readHoursMinutes false cs
  | '-' :: cs => readHoursMinutes true cs
  | '−' :: cs => readHoursMinutes true cs
  | c :: cs =>
    if c = 'Z' ∨ c = 'z' then some (0, cs)
    else if (c :: cs.take 2).map Char.toUpper = "UTC".toList then some (0, cs.drop 2)
    else none
  | [] => none

/-- A time of day: seconds since midnight and nanoseconds, more than a billion in a leap second. -/
def timeOfDay? (hour minute second nano : Nat) : Option (Nat × Nat) :=
  if hour < 24 ∧ minute < 60 then
    if second < 60 then some (hour * 3600 + minute * 60 + second, nano)
    else if second = 60 then some (hour * 3600 + minute * 60 + 59, nano + 1000000000)
    else none
  else none

/-- The years that have instants. -/
def knownYear (year : Int) : Bool := -262143 ≤ year && year ≤ 262142

end Time

namespace Instant

open Time

/-- The instant that characters write. -/
def readChars? (cs : List Char) : Option Instant := do
  let (year, cs) ← readYear cs
  let cs ← readMark '-' cs
  let (month, cs) ← readField 2 cs
  let cs ← readMark '-' cs
  let (day, cs) ← readField 2 cs
  let cs ← readDivider cs
  let (hour, cs) ← readField 2 cs
  let cs ← readMark ':' cs
  let (minute, cs) ← readField 2 cs
  let cs ← readMark ':' cs
  let (second, cs) ← readField 2 cs
  let (nano, cs) ← readFraction cs
  let (offset, cs) ← readOffset cs
  let date : Date := ⟨year, month, day⟩
  let (seconds, nano) ← timeOfDay? hour minute second nano
  if (Text.skipBlanks cs).isEmpty && date.valid && knownYear year && offset.natAbs < 86400 then
    let moment : Instant := ⟨date.toDays * 86400 + seconds - offset, nano⟩
    if knownYear (Date.ofDays (moment.second / 86400)).year then some moment else none
  else none

/-- The instant that a text writes. -/
def read? (s : String) : Option Instant := readChars? s.toList

/-! ## Writing -/

/-- A count with zeros in front up to `width` digits. -/
def padded (width n : Nat) : List Char :=
  let ds := Decimal.digits n
  List.replicate (width - ds.length) '0' ++ ds

/-- A year: four digits, or a sign and at least four digits. -/
def yearChars (year : Int) : List Char :=
  if 0 ≤ year ∧ year ≤ 9999 then padded 4 year.toNat
  else (if year < 0 then '-' else '+') :: padded 4 year.natAbs

/-- The digits of a second behind the point. -/
def fractionChars (nano : Nat) : List Char :=
  if nano = 0 then []
  else if nano % 1000000 = 0 then '.' :: padded 3 (nano / 1000000)
  else if nano % 1000 = 0 then '.' :: padded 6 (nano / 1000)
  else '.' :: padded 9 nano

/-- The characters of an instant. -/
def chars (moment : Instant) : List Char :=
  let date := Date.ofDays (moment.second / 86400)
  let time := (moment.second % 86400).toNat
  let leap := if 1000000000 ≤ moment.nano then 1 else 0
  yearChars date.year ++ '-' :: padded 2 date.month ++ '-' :: padded 2 date.day ++
    'T' :: padded 2 (time / 3600) ++ ':' :: padded 2 (time / 60 % 60) ++
    ':' :: padded 2 (time % 60 + leap) ++ fractionChars (moment.nano % 1000000000) ++ ['Z']

/-- The text of an instant. -/
def text (moment : Instant) : String := String.ofList moment.chars

end Instant

end CodeQuality
