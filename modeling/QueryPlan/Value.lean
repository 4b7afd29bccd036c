import QueryPlan.Decimal.Text
import QueryPlan.Model
import QueryPlan.Ty

/-!
# Value — literals, parameters and column values

A value is a scalar, a capture environment or a table handle; the last two occur only inside
templates.  Two relations on values are kept apart:

* `=` (decidable) tells the two objects apart completely, serial numbers and float bits included;
* `Value.agrees` is the comparison that template matching uses: floats compare as numbers,
  environments by identity and tables by the path of their model.
-/

namespace QueryPlan

/-- A snapshot of the variables that a template captured, known by a serial number. -/
structure Env (α : Type) where
  id : Nat
  captures : List (String × α)

namespace Env

variable {α : Type}

def empty (id : Nat) : Env α :=
  ⟨id, []⟩

/-- Capture one variable; a later capture under the same name replaces the earlier one. -/
def capture (env : Env α) (name : String) (value : α) : Env α :=
  { env with captures := env.captures.filter (·.1 != name) ++ [(name, value)] }

def ofList (id : Nat) (captures : List (String × α)) : Env α :=
  captures.foldl (fun env c => env.capture c.1 c.2) (empty id)

def get? (env : Env α) (name : String) : Option α :=
  (env.captures.find? (·.1 == name)).map (·.2)

def size (env : Env α) : Nat :=
  env.captures.length

end Env

/-- A mapped table together with the type of the elements read from it. -/
structure Table where
  model : Model
  element : Ty
  deriving DecidableEq

/-- A value carried by a literal, a bound parameter or a result row. -/
inductive Value where
  | null
  | bool (v : Bool)
  | int (v : Int32)
  | long (v : Int64)
  | float (v : Float)
  | text (v : String)
  | closure (env : Env Value)
  | table (source : Table)

namespace Value

/-! ## Identity -/

mutual

def identical : Value → Value → Bool
  | null, null => true
  | bool a, bool b => a == b
  | int a, int b => decide (a = b)
  | long a, long b => decide (a = b)
  | float a, float b => decide (a = b)
  | text a, text b => a == b
  | closure ⟨i, as⟩, closure ⟨j, bs⟩ => i == j && identicalCaptures as bs
  | table a, table b => decide (a = b)
  | _, _ => false
termination_by structural a => a

def identicalCaptures : List (String × Value) → List (String × Value) → Bool
  | [], [] => true
  | a :: as, b :: bs => identicalCapture a b && identicalCaptures as bs
  | _, _ => false
termination_by structural a => a

def identicalCapture : String × Value → String × Value → Bool
  | (n, a), (m, b) => n == m && identical a b
termination_by structural a => a

end

mutual

theorem identical_iff : ∀ a b : Value, identical a b = true ↔ a = b
  | null, b => by cases b <;> simp [identical]
  | bool a, b => by cases b <;> simp [identical]
  | int a, b => by cases b <;> simp [identical]
  | long a, b => by cases b <;> simp [identical]
  | float a, b => by cases b <;> simp [identical]
  | text a, b => by cases b <;> simp [identical]
  | table a, b => by cases b <;> simp [identical]
  | closure ⟨i, as⟩, b => by
      cases b with
      | closure env =>
          obtain ⟨j, bs⟩ := env
          simp [identical, identicalCaptures_iff as bs]
      | _ => simp [identical]

theorem identicalCaptures_iff :
    ∀ as bs : List (String × Value), identicalCaptures as bs = true ↔ as = bs
  | [], bs => by cases bs <;> simp [identicalCaptures]
  | a :: as, [] => by simp [identicalCaptures]
  | a :: as, b :: bs => by
      simp [identicalCaptures, identicalCapture_iff a b, identicalCaptures_iff as bs]

theorem identicalCapture_iff :
    ∀ a b : String × Value, identicalCapture a b = true ↔ a = b
  | (n, a), (m, b) => by simp [identicalCapture, identical_iff a b]

end

instance : DecidableEq Value := fun a b =>
  withPtrEqDecEq a b fun _ => decidable_of_iff (identical a b = true) (identical_iff a b)

/-! ## Agreement -/

/-- The comparison of literals used by template matching. -/
def agrees : Value → Value → Bool
  | null, null => true
  | bool a, bool b => a == b
  | int a, int b => a == b
  | long a, long b => a == b
  | float a, float b => a == b
  | text a, text b => a == b
  | closure a, closure b => a.id == b.id
  | table a, table b => a.model.path == b.model.path
  | _, _ => false

/-! ## Classification -/

def isNull : Value → Bool
  | null => true
  | _ => false

/-- Whether the value can be bound as a parameter or read from a row. -/
def isScalar : Value → Bool
  | closure _ | table _ => false
  | _ => true

def asBool? : Value → Option Bool
  | bool v => some v
  | _ => none

def asInt? : Value → Option Int32
  | int v => some v
  | _ => none

/-- The integer as 64 bits; a 32-bit integer is widened. -/
def asLong? : Value → Option Int64
  | int v => some v.toInt64
  | long v => some v
  | _ => none

def asFloat? : Value → Option Float
  | float v => some v
  | _ => none

def asText? : Value → Option String
  | text v => some v
  | _ => none

/-- What kind of value this is, in one word. -/
def label : Value → String
  | null => "null"
  | bool _ => "bool"
  | int _ => "int"
  | long _ => "long"
  | float _ => "float"
  | text _ => "text"
  | closure _ => "closure"
  | table _ => "table"

/-! ## Literal text -/

/-- A quote inside a text literal is written twice. -/
def escapeQuotes : List Char → List Char
  | [] => []
  | c :: rest => if c == '\'' then '\'' :: '\'' :: escapeQuotes rest else c :: escapeQuotes rest

/-- A text literal: the text between quotes, inner quotes doubled. -/
def quoteText (s : String) : String :=
  "'" ++ String.ofList (escapeQuotes s.toList) ++ "'"

def sql : Value → String
  | null => "NULL"
  | bool v => if v then "true" else "false"
  | int v => toString v.toInt
  | long v => toString v.toInt
  | float v => floatText v
  | text v => quoteText v
  | closure env => "<closure:" ++ toString env.size ++ ">"
  | table source => "<table:" ++ source.model.path ++ ">"

end Value

end QueryPlan
