import QueryPlan.Error

/-!
# Row — result rows and how they are read

A row has as many values as columns; `Row.make` refuses anything else.  Columns are read by name,
the first column of that name counting, or as the single value of a one-column row.

What a row is read as is described by data: a single column, a record of named columns read in
order, the row itself, or whatever the application makes of it.
-/

namespace QueryPlan

structure Row where
  columns : List String
  values : List Value
  sameLength : values.length = columns.length

namespace Row

/-- Build a row from values in column order. -/
def make (columns : List String) (values : List Value) : Except ExecutionError Row :=
  if h : values.length = columns.length then
    .ok ⟨columns, values, h⟩
  else
    .error (.rowWidth values.length columns.length)

/-- The name of a column by position, empty when out of range. -/
def columnName (row : Row) (index : Nat) : String :=
  row.columns[index]?.getD ""

/-- The value of the first column with a given name. -/
def get (row : Row) (name : String) : Except ExecutionError Value :=
  match (row.columns.zip row.values).lookup name with
  | some value => .ok value
  | none => .error (.missingColumn name)

/-- The only value of a one-column row. -/
def scalar (row : Row) : Except ExecutionError Value :=
  match row.values with
  | [value] => .ok value
  | _ => .error (.mappingMismatch (row.columnName 0) "a single-column result")

end Row

/-! ## Column types -/

inductive ColumnType where
  | int32
  | int64
  | float64
  | bool
  | text
  | nullable (item : ColumnType)
  deriving DecidableEq

inductive Cell where
  | int32 (v : Int32)
  | int64 (v : Int64)
  | float64 (v : Float)
  | bool (v : Bool)
  | text (v : String)
  /-- The null of a nullable column. -/
  | absent
  deriving DecidableEq

namespace ColumnType

/-- The type's name in mapping errors; a nullable column is named after its item. -/
def name : ColumnType → String
  | int32 => "i32"
  | int64 => "i64"
  | float64 => "f64"
  | bool => "bool"
  | text => "String"
  | nullable item => item.name

/-- Read a value; 32-bit integers widen to 64 bits, nothing else is converted. -/
def read? : ColumnType → Value → Option Cell
  | int32, value => value.asInt?.map .int32
  | int64, value => value.asLong?.map .int64
  | float64, value => value.asFloat?.map .float64
  | bool, value => value.asBool?.map .bool
  | text, value => value.asText?.map .text
  | nullable item, value => if value.isNull then some .absent else item.read? value

end ColumnType

namespace Row

def read (row : Row) (name : String) (ty : ColumnType) : Except ExecutionError Cell := do
  match ty.read? (← row.get name) with
  | some cell => return cell
  | none => throw (.mappingMismatch name ty.name)

def scalarAs (row : Row) (ty : ColumnType) : Except ExecutionError Cell := do
  match ty.read? (← row.scalar) with
  | some cell => return cell
  | none => throw (.mappingMismatch (row.columnName 0) ty.name)

end Row

/-! ## Row types -/

inductive Item where
  | cell (value : Cell)
  | record (fields : List (String × Cell))
  | whole (row : Row)

inductive RowShape where
  | column (ty : ColumnType)
  /-- Named columns, read in order. -/
  | record (fields : List (String × ColumnType))
  | whole
  /-- A mapping of the application's own, which may fail on any row. -/
  | mapped (read : Row → Except ExecutionError Item)

structure RowType where
  ty : Ty
  shape : RowShape

namespace Row

/-- Read the columns of a record; the first failure counts. -/
def readFields (row : Row) :
    List (String × ColumnType) → Except ExecutionError (List (String × Cell))
  | [] => .ok []
  | (name, ty) :: rest => do
      let cell ← row.read name ty
      let cells ← row.readFields rest
      return (name, cell) :: cells

def toItem (row : Row) : RowShape → Except ExecutionError Item
  | .column ty => do return .cell (← row.scalarAs ty)
  | .record fields => do return .record (← row.readFields fields)
  | .whole => .ok (.whole row)
  | .mapped read => read row

end Row

end QueryPlan
