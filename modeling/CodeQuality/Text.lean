/-!
# Texts

Blank characters and texts without the blanks at their ends, texts inside texts, and the digits of base
sixteen.
-/

namespace CodeQuality.Text

/-! ## Blanks -/

/-- The Unicode property `White_Space`. -/
def isBlank (c : Char) : Bool :=
  let n := c.toNat
  (0x9 ≤ n && n ≤ 0xD) || n == 0x20 || n == 0x85 || n == 0xA0 || n == 0x1680 ||
    (0x2000 ≤ n && n ≤ 0x200A) || n == 0x2028 || n == 0x2029 || n == 0x202F || n == 0x205F ||
    n == 0x3000

/-- Characters without the blanks at the front. -/
def skipBlanks (cs : List Char) : List Char := cs.dropWhile isBlank

/-- A text without the blanks at both ends. -/
def trim (s : String) : String :=
  String.ofList (skipBlanks (skipBlanks s.toList).reverse).reverse

/-- Whether a text holds nothing but blanks. -/
def blank (s : String) : Bool := s.toList.all isBlank

/-! ## Texts inside texts -/

/-- Whether some characters occur one after the other among others. -/
def occursIn (needle : List Char) : List Char → Bool
  | [] => needle.isEmpty
  | c :: cs => needle.isPrefixOf (c :: cs) || occursIn needle cs

/-- Whether a text contains another one, the case of the letters `A` to `Z` apart. -/
def mentions (text word : String) : Bool :=
  occursIn word.toList (text.toList.map Char.toLower)

/-! ## Hexadecimal digits -/

/-- The value of a hexadecimal digit, which may be large or small. -/
def hexValue? (c : Char) : Option Nat :=
  if '0' ≤ c ∧ c ≤ '9' then some (c.toNat - '0'.toNat)
  else if 'a' ≤ c ∧ c ≤ 'f' then some (c.toNat - 'a'.toNat + 10)
  else if 'A' ≤ c ∧ c ≤ 'F' then some (c.toNat - 'A'.toNat + 10)
  else none

/-- The hexadecimal digit of a value below sixteen, in small letters. -/
def hexDigit (n : Nat) : Char :=
  if n < 10 then Char.ofNat ('0'.toNat + n) else Char.ofNat ('a'.toNat + (n - 10))

end CodeQuality.Text
