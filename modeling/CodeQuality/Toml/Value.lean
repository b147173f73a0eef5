/-!
# TOML values

A table remembers how it came about, because that decides who may add to it: a header may open a
table once, dotted keys may extend only what dotted keys began, and an inline table is complete.
-/

namespace CodeQuality.Toml

/-- How a table came about. -/
inductive TableOrigin where
  /-- A header of its own. -/
  | header
  /-- The header of a table inside it. -/
  | implied
  /-- A dotted key. -/
  | dotted
  /-- Braces. -/
  | inline
deriving DecidableEq

/-- How an array came about. -/
inductive ArrayOrigin where
  /-- Brackets around its items. -/
  | brackets
  /-- Headers in double brackets, one for each item. -/
  | headers
deriving DecidableEq

/-- A value of a TOML text. -/
inductive Value where
  | string (text : String)
  | integer (n : Int)
  | float (x : Float)
  /-- What starts like a number but is none, or none that a format holds. -/
  | unreadable
  | boolean (b : Bool)
  /-- A date, a time of day, or both. -/
  | moment (text : String)
  | array (origin : ArrayOrigin) (items : List Value)
  | table (origin : TableOrigin) (entries : List (String × Value))

mutual

/-- Whether a value holds no number that is unreadable. -/
def Value.readable : Value → Bool
  | .unreadable => false
  | .array _ items => itemsReadable items
  | .table _ entries => entriesReadable entries
  | _ => true

/-- Whether all items are readable. -/
def itemsReadable : List Value → Bool
  | [] => true
  | item :: items => item.readable && itemsReadable items

/-- Whether the values of all entries are readable. -/
def entriesReadable : List (String × Value) → Bool
  | [] => true
  | (_, value) :: entries => value.readable && entriesReadable entries

end

/-- The entries of a table in order of appearance. -/
abbrev Entries := List (String × Value)

namespace Entries

/-- The entries with the value of a key replaced. -/
def replace (key : String) (value : Value) (entries : Entries) : Entries :=
  entries.map fun entry => if entry.1 = key then (key, value) else entry

/-- The entries with a value under a dotted key. Tables on the way are begun or extended; one that
a header opened or braces completed cannot be extended, nor can the key be given twice. On the way
lie also tables that only headers inside them imply, and the last of an array of tables, but to
neither can a dotted key add a value of its own. -/
def assign? (value : Value) : List String → Entries → Option Entries
  | [], _ => none
  | [key], entries =>
    if (entries.lookup key).isSome then none else some (entries ++ [(key, value)])
  | key :: rest, entries =>
    match entries.lookup key with
    | none =>
      (assign? value rest []).map fun inner => entries ++ [(key, .table .dotted inner)]
    | some (.table .dotted inner) =>
      (assign? value rest inner).map fun inner => replace key (.table .dotted inner) entries
    | some (.table .implied inner) =>
      if rest.length = 1 then none
      else (assign? value rest inner).map fun inner => replace key (.table .implied inner) entries
    | some (.array .headers items) =>
      match items.getLast? with
      | some (.table origin inner) =>
        if rest.length = 1 then none
        else (assign? value rest inner).map fun inner =>
          replace key (.array .headers (items.dropLast ++ [.table origin inner])) entries
      | _ => none
    | some _ => none

/-- The entries with the table changed that a header names. Tables on the way are begun; of an array
of tables the last one is meant. -/
def within? (change? : Entries → Option Entries) : List String → Entries → Option Entries
  | [], entries => change? entries
  | key :: rest, entries =>
    match entries.lookup key with
    | none =>
      (within? change? rest []).map fun inner => entries ++ [(key, .table .implied inner)]
    | some (.table origin inner) =>
      if origin = .inline then none
      else (within? change? rest inner).map fun inner => replace key (.table origin inner) entries
    | some (.array .headers items) =>
      match items.getLast? with
      | some (.table origin inner) =>
        (within? change? rest inner).map fun inner =>
          replace key (.array .headers (items.dropLast ++ [.table origin inner])) entries
      | _ => none
    | some _ => none

/-- The entries with a table that a header opens. -/
def openTable? (key : String) (entries : Entries) : Option Entries :=
  match entries.lookup key with
  | none => some (entries ++ [(key, .table .header [])])
  | some (.table .implied inner) => some (replace key (.table .header inner) entries)
  | some _ => none

/-- The entries with a further table in an array of tables. -/
def openItem? (key : String) (entries : Entries) : Option Entries :=
  match entries.lookup key with
  | none => some (entries ++ [(key, .array .headers [.table .header []])])
  | some (.array .headers items) =>
    some (replace key (.array .headers (items ++ [.table .header []])) entries)
  | some _ => none

end Entries

end CodeQuality.Toml
