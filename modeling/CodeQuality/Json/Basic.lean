import CodeQuality.Decimal.Numeral

/-!
# JSON values

Values as they stand in a JSON text: the members of an object keep their order and may repeat a
name, and a number keeps its decimal, so that what a text says is decided where it is read as
something.
-/

namespace CodeQuality

/-- A JSON value. -/
inductive Json where
  | null
  | bool (value : Bool)
  | number (value : Numeral)
  /-- A string literal. One that escapes half of a surrogate pair has no text. -/
  | string (text : Option String)
  | array (items : List Json)
  /-- The members in order of appearance; names are string literals. -/
  | object (members : List (Option String × Json))

namespace Json

/-- The string of a text. -/
def ofString (s : String) : Json := string (some s)

/-- The number of a count. -/
def ofNat (n : Nat) : Json := number (.ofNat n)

/-- A floating-point number in its shortest decimal; a value that is no number is written `null`. -/
def ofFloat (x : Float) : Json :=
  match Numeral.ofFloat? x with
  | some n => number n
  | none => null

/-- An object with the given members. -/
def ofMembers (members : List (String × Json)) : Json :=
  object (members.map fun m => (some m.1, m.2))

/-- The member of an object, left out when there is no value. -/
def member? (name : String) (value : Option Json) : List (String × Json) :=
  match value with
  | some v => [(name, v)]
  | none => []

/-! ## Reading values -/

/-- The truth value that a JSON value is. -/
def bool? : Json → Option Bool
  | bool b => some b
  | _ => none

/-- The text that a JSON value is. -/
def string? : Json → Option String
  | string s => s
  | _ => none

/-- The count below `bound` that a JSON value is. -/
def natBelow? (bound : Nat) : Json → Option Nat
  | number n => n.toNat?.filter (· < bound)
  | _ => none

/-- A count of 32 bits. -/
def count32? : Json → Option Nat := natBelow? UInt32.size

/-- A count of 64 bits. -/
def count64? : Json → Option Nat := natBelow? UInt64.size

/-- The floating-point number that a JSON value is. -/
def float? : Json → Option Float
  | number n => n.toFloat?
  | _ => none

/-- The items of an array, each read by `item?`. -/
def list? {τ : Type} (item? : Json → Option τ) : Json → Option (List τ)
  | array items => items.mapM item?
  | _ => none

/-- A value, or nothing where `null` stands. -/
def nullable? {τ : Type} (value? : Json → Option τ) : Json → Option (Option τ)
  | null => some none
  | j => (value? j).map some

/-- The choice that a JSON value names, as a text or as the only name of an object of one `null`. -/
def choice? {τ : Type} (named? : String → Option τ) : Json → Option τ
  | string (some s) => named? s
  | object [(some s, null)] => named? s
  | _ => none

end Json

end CodeQuality
