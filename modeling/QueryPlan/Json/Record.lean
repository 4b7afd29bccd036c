import QueryPlan.Json.Reader

/-!
# Record — reading JSON values as typed data

A record is written as an object with its fields as members, in any order, or as an array of its
fields in order.  Members that are no field are ignored, a field must not be given twice.

A variant is written as its name, or as an object whose only member is the name with a payload.
-/

namespace QueryPlan
namespace Json
namespace Value

def valuesOf (members : List (Option String × Value)) (name : String) : List Value :=
  (members.filter (·.1 == some name)).map (·.2)

/-- The value of a field, if it is given; a field that is given twice is refused. -/
def field? (members : List (Option String × Value)) (name : String) : Option (Option Value) :=
  match valuesOf members name with
  | [] => some none
  | [v] => some (some v)
  | _ => none

/-- The fields of a record, in the order of their names. -/
def record? (names : List String) : Value → Option (List (Option Value))
  | object members =>
      if members.all (·.1.isSome) then names.mapM (field? members) else none
  | array items => if items.length = names.length then some (items.map some) else none
  | _ => none

/-- The fields of a record, all of which are required. -/
def fullRecord? (names : List String) (v : Value) : Option (List Value) := do
  (← v.record? names).mapM id

def variant? : Value → Option (String × Option Value)
  | text (some name) => some (name, none)
  | object [(some name, payload)] => some (name, some payload)
  | _ => none

def plainVariant? (v : Value) : Option String :=
  match v.variant? with
  | some (name, none) | some (name, some null) => some name
  | _ => none

/-- A field that may be missing or null. -/
def optional? {α : Type} (read : Value → Option α) : Option Value → Option (Option α)
  | none | some null => some none
  | some v => (read v).map some

def toText? : Value → Option String
  | text s => s
  | _ => none

def toNat? : Value → Option Nat
  | number n => n.toNat?
  | _ => none

def toFloat? : Value → Option Float
  | number n => n.toFloat?
  | _ => none

def toList? : Value → Option (List Value)
  | array items => some items
  | _ => none

def toTable? : Value → Option (List (String × Value))
  | object members => members.mapM fun m => m.1.map (·, m.2)
  | _ => none

end Value

/-! ## Writing -/

/-- A character inside a text: quotes, backslashes and control characters are escaped. -/
def escapeChar (c : Char) : List Char :=
  match c with
  | '"' => ['\\', '"']
  | '\\' => ['\\', '\\']
  | '\x08' => ['\\', 'b']
  | '\x0c' => ['\\', 'f']
  | '\n' => ['\\', 'n']
  | '\r' => ['\\', 'r']
  | '\t' => ['\\', 't']
  | c =>
      if c.toNat < 0x20 then
        ['\\', 'u', '0', '0', Nat.digitChar (c.toNat / 16), Nat.digitChar (c.toNat % 16)]
      else
        [c]

def quote (s : String) : String :=
  "\"" ++ String.ofList (s.toList.flatMap escapeChar) ++ "\""

end Json
end QueryPlan
