import QueryPlan.Text.Digits

/-!
# Value — TOML values and how a document defines tables

A table may be defined in pieces, and its status says which further pieces are allowed:

* a table that a header merely passes through may still get a header of its own, once;
* a table that dotted keys made may be extended by dotted keys only;
* a table written in braces is complete.

Every key is defined at most once.

Numbers are kept as written: a document may hold a number that has no value, as long as nobody asks
for it.
-/

namespace QueryPlan
namespace Toml

/-- How a table came about. -/
inductive Status where
  /-- A header names a table inside of it. -/
  | implied
  /-- It has a header of its own. -/
  | declared
  /-- Dotted keys name entries inside of it. -/
  | dotted
  /-- It is written in braces. -/
  | complete
  deriving DecidableEq

/-- An integer as written: its base, and its sign and digits without underscores. -/
structure Numeral where
  base : Nat
  written : List Char

namespace Numeral

/-- Whether there is a minus sign, and what follows the sign. -/
def unsign : List Char → Bool × List Char
  | '+' :: rest => (false, rest)
  | '-' :: rest => (true, rest)
  | s => (false, s)

/-- The number, if digits of the base are written and nothing else. -/
def toInt? (n : Numeral) : Option Int :=
  let (negative, digits) := unsign n.written
  if digits.isEmpty || !digits.all (isDigitOf n.base) then
    none
  else
    let magnitude : Int := numberOf n.base digits
    some (if negative then -magnitude else magnitude)

end Numeral

/-- A TOML value.  Floats, dates and times are kept as written. -/
inductive Value where
  | text (s : String)
  | integer (n : Numeral)
  | float (written : String)
  | moment (written : String)
  | bool (v : Bool)
  | array (items : List Value)
  /-- An array whose items have headers of their own. -/
  | tables (items : List (List (String × Value)))
  | table (status : Status) (entries : List (String × Value))

/-- Entries of a table, in order of definition. -/
abbrev Entries := List (String × Value)

namespace Entries

def replace (entries : Entries) (name : String) (v : Value) : Entries :=
  entries.map fun e => if e.1 = name then (name, v) else e

/-- Define a key, which may be dotted. -/
def assign : List String → Value → Entries → Option Entries
  | [], _, _ => none
  | [name], v, entries =>
      match entries.lookup name with
      | none => some (entries ++ [(name, v)])
      | some _ => none
  | name :: rest, v, entries =>
      match entries.lookup name with
      | none => do return entries ++ [(name, .table .dotted (← assign rest v []))]
      | some (.table .dotted inner) => do
          return entries.replace name (.table .dotted (← assign rest v inner))
      | some _ => none

/-- Change the table that a header path leads to; tables on the way are implied.  Where there are
several tables of one name, the last one is meant. -/
def within (change : Entries → Option Entries) : List String → Entries → Option Entries
  | [], entries => change entries
  | name :: rest, entries =>
      match entries.lookup name with
      | none => do return entries ++ [(name, .table .implied (← within change rest []))]
      | some (.table .complete _) => none
      | some (.table status inner) => do
          return entries.replace name (.table status (← within change rest inner))
      | some (.tables items) =>
          match items.getLast? with
          | some last => do
              return entries.replace name
                (.tables (items.dropLast ++ [← within change rest last]))
          | none => none
      | some _ => none

def declare (name : String) (entries : Entries) : Option Entries :=
  match entries.lookup name with
  | none => some (entries ++ [(name, .table .declared [])])
  | some (.table .implied inner) => some (entries.replace name (.table .declared inner))
  | some _ => none

def append (name : String) (entries : Entries) : Option Entries :=
  match entries.lookup name with
  | none => some (entries ++ [(name, .tables [[]])])
  | some (.tables items) => some (entries.replace name (.tables (items ++ [[]])))
  | some _ => none

/-- A table whose entries are all given at once. -/
def ofList (assignments : List (List String × Value)) : Option Entries :=
  assignments.foldlM (fun entries a => assign a.1 a.2 entries) []

end Entries

namespace Value

def toList? : Value → Option (List Value)
  | array items => some items
  | tables items => some (items.map (table .declared))
  | _ => none

end Value

end Toml
end QueryPlan
