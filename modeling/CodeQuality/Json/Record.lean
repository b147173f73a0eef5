import CodeQuality.Json.Basic

/-!
# Records in JSON

A record is an object whose members are found by name, or an array of its fields in order. Names
that the record does not have are passed over; a field that is given twice is refused, also when
it is given once by each of two names.

What has a form in JSON is written by its `toJson` and read by its `ofJson?`; the names of its fields
are its `fieldNames`.
-/

namespace CodeQuality

/-- The fields that a JSON value gives of a record, each at most once. -/
structure Record where
  fields : List (String × Json)

namespace Record

/-- The value given for a field. -/
def get? (r : Record) (name : String) : Option Json := r.fields.lookup name

/-- Fields by name; `none` if one is given twice. `rename` maps every name to the one it stands for
and drops those that the record does not have. -/
def gather? (rename : String → Option String) :
    List (Option String × Json) → List (String × Json) → Option (List (String × Json))
  | [], found => some found.reverse
  | (none, _) :: _, _ => none
  | (some given, value) :: rest, found =>
    match rename given with
    | none => gather? rename rest found
    | some name =>
      if (found.lookup name).isSome then none else gather? rename rest ((name, value) :: found)

/-- The record of fields `names` that a JSON value is. `aliases` are further names of fields. -/
def read? (names : List String) (aliases : List (String × String)) : Json → Option Record
  | .object members =>
    (gather? (fun s => if s ∈ names then some s else aliases.lookup s) members []).map Record.mk
  | .array items => if items.length ≤ names.length then some ⟨names.zip items⟩ else none
  | _ => none

/-- A field that must be given. -/
def required {τ : Type} (r : Record) (name : String) (value? : Json → Option τ) : Option τ :=
  (r.get? name).bind value?

/-- A field that may be left out for `value`. -/
def withDefault {τ : Type} (r : Record) (name : String) (value : τ) (value? : Json → Option τ) :
    Option τ :=
  match r.get? name with
  | some j => value? j
  | none => some value

/-- A field that may be left out or `null`. -/
def optional {τ : Type} (r : Record) (name : String) (value? : Json → Option τ) :
    Option (Option τ) :=
  r.withDefault name none (Json.nullable? value?)

end Record

end CodeQuality
