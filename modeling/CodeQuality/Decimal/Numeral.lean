import CodeQuality.Decimal.Basic
import CodeQuality.Decimal.Shortest
import CodeQuality.Number.Binary64

/-!
# Numerals

A numeral is a decimal as it is written: a whole number, or digits and a power of ten, written with
a fraction or an exponent. Its digits are a count of 64 bits; of a longer numeral those at the front
are kept, as many as fit.

* `Numeral.ofFloat?` gives every finite floating-point number its shortest numeral;
* `Numeral.text` and `Numeral.read?` are the written form; a shortest numeral is read as itself;
* `Numeral.toFloat?` scales the digits by the power of ten and refuses what is too large. Up to
  `2 ^ 53` and `10 ^ 22` both are exact, and so the result is the nearest floating-point number;
  beyond them each is rounded for itself, and the result may be a neighbour of the nearest.
-/

namespace CodeQuality

/-- A decimal number as it is written. -/
inductive Numeral where
  /-- A whole number, written without fraction and exponent. -/
  | whole (negative : Bool) (digits : Nat)
  /-- `± digits · 10 ^ exponent`, written with a fraction or an exponent. -/
  | decimal (negative : Bool) (digits : Nat) (exponent : Int)
deriving DecidableEq

namespace Numeral

/-- The numeral of a count. -/
def ofNat (n : Nat) : Numeral := whole false n

/-! ## Floating point -/

/-- Whether a decimal is written without an exponent whose point stands behind the first `point` of
its digits: one from `10 ^ -5` up to `10 ^ 16`. -/
def isPositional (point : Int) : Bool := -5 < point && point ≤ 16

/-- The numeral of `± digits · 10 ^ exponent` with the digits that its text shows: behind the point
of a whole number stands a zero. -/
def ofDecimal (negative : Bool) (digits : Nat) (exponent : Int) : Numeral :=
  if digits = 0 then decimal negative 0 (-1)
  else if 0 ≤ exponent ∧ isPositional (exponent + (Decimal.digits digits).length) then
    decimal negative (digits * Nat.pow 10 (exponent.toNat + 1)) (-1)
  else decimal negative digits exponent

/-- The shortest numeral of a floating-point number; a value that is no number has none. -/
def ofFloat? (x : Float) : Option Numeral :=
  match Binary64.parts x with
  | .special _ => none
  | .finite negative m q =>
    if m = 0 then some (ofDecimal negative 0 0)
    else
      let (digits, exponent) := Decimal.shortest m q
      some (ofDecimal negative digits exponent)

/-- `x` with a sign. -/
def signed (negative : Bool) (x : Float) : Float := if negative then -x else x

/-- The floating-point number nearest to `10 ^ n`, which is infinite from `10 ^ 309` on. -/
def tenPower (n : Nat) : Float := Decimal.nearest 1 n

/-- `x · 10 ^ exponent` by one multiplication or division, or by two divisions where
`10 ^ -exponent` is no floating-point number. Zero stays zero. -/
def scale (x : Float) (exponent : Int) : Float :=
  let n := exponent.natAbs
  if x == 0.0 then x
  else if 0 ≤ exponent then x * tenPower n
  else if n ≤ 308 then x / tenPower n
  else x / tenPower 308 / tenPower (n - 308)

/-- The floating-point value, infinite when the numeral is too large. -/
def toFloat : Numeral → Float
  | whole negative digits => signed negative (Float.ofNat digits)
  | decimal negative digits exponent => signed negative (scale (Float.ofNat digits) exponent)

/-- The floating-point number, if the numeral is not too large for one. -/
def toFloat? (n : Numeral) : Option Float :=
  let x := n.toFloat
  if x.isFinite then some x else none

/-- The count that a numeral writes. A sign or a fraction is refused, even if nothing follows. -/
def toNat? : Numeral → Option Nat
  | whole false digits => some digits
  | _ => none

/-! ## Writing -/

/-- The characters of a sign. -/
def signChars (negative : Bool) : List Char := if negative then ['-'] else []

/-- Digits with the decimal point behind the first `point` of them; a zero fills an empty side. -/
def positional (ds : List Char) (point : Int) : List Char :=
  if point ≤ 0 then '0' :: '.' :: List.replicate (-point).toNat '0' ++ ds
  else
    let p := point.toNat
    if p < ds.length then ds.take p ++ '.' :: ds.drop p
    else ds ++ List.replicate (p - ds.length) '0' ++ ['.', '0']

/-- Digits with the decimal point behind the first, and the exponent with its sign. -/
def scientific (ds : List Char) (point : Int) : List Char :=
  let mantissa := match ds with
    | [] => []
    | [d] => [d]
    | d :: rest => d :: '.' :: rest
  let e := point - 1
  mantissa ++ 'e' :: (if e < 0 then '-' else '+') :: Decimal.digits e.natAbs

/-- A numeral as it is written: positionally with at least one digit on either side of the point, or
with an exponent. -/
def chars : Numeral → List Char
  | whole negative digits => signChars negative ++ Decimal.digits digits
  | decimal negative digits exponent =>
    let ds := Decimal.digits digits
    let point := exponent + ds.length
    signChars negative ++
      (if digits = 0 then ['0', '.', '0']
        else if isPositional point then positional ds point
        else scientific ds point)

/-- The text of a numeral. -/
def text (n : Numeral) : String := String.ofList n.chars

/-! ## Reading -/

/-- The value of a run of decimal digits. -/
def value (ds : List Char) : Nat := ds.foldl (fun n c => 10 * n + (c.toNat - '0'.toNat)) 0

/-- The digits at the front, which must not be empty, and what follows them. -/
def digits? (cs : List Char) : Option (List Char × List Char) :=
  match cs.span Char.isDigit with
  | ([], _) => none
  | split => some split

/-- The exponent of a numeral: nothing, or `e` with an optional sign and digits to the end. -/
def exponent? : List Char → Option Int
  | [] => some 0
  | c :: rest =>
    if c = 'e' ∨ c = 'E' then
      let (negative, ds) := match rest with
        | '-' :: ds => (true, ds)
        | '+' :: ds => (false, ds)
        | ds => (false, ds)
      match digits? ds with
      | some (ds, []) => some (if negative then -(value ds : Int) else value ds)
      | _ => none
    else none

/-- The count whose digits are those of `n` and then as many of the given ones as fit in 64 bits,
and the digits that are left out. -/
def extend (n : Nat) : List Char → Nat × List Char
  | [] => (n, [])
  | c :: cs =>
    let next := 10 * n + (c.toNat - '0'.toNat)
    if next < UInt64.size then extend next cs else (n, c :: cs)

/-- The numeral that a sign, whole digits and what follows them make up. Every whole digit that is
left out raises the exponent, every digit of the fraction that is kept lowers it. -/
def finish? (negative : Bool) (ds rest : List Char) : Option Numeral :=
  let (n, beyond) := extend 0 ds
  match rest with
  | [] => some (if beyond.isEmpty then whole negative n else decimal negative n beyond.length)
  | '.' :: rest => do
    let (fraction, rest) ← digits? rest
    let e ← exponent? rest
    let (n, dropped) := extend n fraction
    let kept : Int := fraction.length - dropped.length
    return decimal negative n (beyond.length - kept + e)
  | rest => do
    let e ← exponent? rest
    return decimal negative n (beyond.length + e)

/-- Reads a whole text as a numeral: an optional minus sign, digits without a leading zero, then an
optional fraction and an optional exponent. -/
def read? (cs : List Char) : Option Numeral := do
  let (negative, cs) := match cs with
    | '-' :: cs => (true, cs)
    | cs => (false, cs)
  let (ds, rest) ← digits? cs
  if ds.head? = some '0' ∧ ds ≠ ['0'] then none
  else finish? negative ds rest

end Numeral

end CodeQuality
