import QueryPlan.Metrics.Counters
import QueryPlan.Plan

/-!
# Enumeration — reading the results of a query

An enumeration is lazy: the first step opens a cursor, every step reads one row, and the cursor is
released as soon as the results end, fail or are abandoned.  A start event is reported when the
cursor is about to be opened, and exactly one finish event when it is released or could not be
opened; the finish event counts the rows that were fetched, a row that failed to map included, and
says how long the enumeration took.

Clocks are read outside: whoever makes a step says how many microseconds have passed since the start
of the enumeration when the step ends.
-/

namespace QueryPlan

/-- What a cursor has yet to deliver: rows or failures, then the end. -/
abbrev Cursor := List (Except ExecutionError Row)

/-- A connection runs a query with parameter values and returns a cursor, or fails. -/
abbrev Connection := Sql.Query → List Value → Except ExecutionError Cursor

namespace Connection

/-- What is left to read at an index of given rows, which end in a failure at a given index. -/
def replies (failAt : Option Nat) : Nat → List (List String × List Value) → Cursor
  | index, rows =>
      if failAt = some index then
        [.error (.connection "reader failed")]
      else
        match rows with
        | [] => []
        | row :: rest => Row.make row.1 row.2 :: replies failAt (index + 1) rest

/-- A connection in memory, which answers every query with the same rows.  Reading fails at a given
index, if there is one, and every query fails if `broken` is set. -/
def inMemory (rows : List (List String × List Value)) (failAt : Option Nat) (broken : Bool) :
    Connection := fun _ _ =>
  if broken then .error (.connection "open failed") else .ok (replies failAt 0 rows)

end Connection

/-- A query with its parameter values and the shape that rows are read as. -/
structure Command where
  query : Sql.Query
  params : List Value
  shape : RowShape

inductive Enumeration where
  | pending
  | reading (cursor : Cursor) (rows : Counter)
  | done

/-- The result of one step: the item or failure, unless the results have ended; how often the
connection was asked to run the command; the events in order; and the enumeration that is left. -/
structure EnumerationStep where
  item : Option (Except ExecutionError Item)
  opened : Nat
  events : List Event
  rest : Enumeration

namespace Enumeration

/-- Whether a cursor is held. -/
def isOpen : Enumeration → Bool
  | reading _ _ => true
  | _ => false

def startEvent (query : Sql.Query) : Event :=
  .started query.element.name

/-- The event that ends an enumeration.  A duration is a 64-bit number too. -/
def finishEvent (query : Sql.Query) (rows : Counter) (elapsed : Nat) : Event :=
  let duration : Counter := .clamp elapsed
  .finished query.element.name rows.value duration.value

def advance (command : Command) (elapsed : Nat) : Cursor → Counter → EnumerationStep
  | [], rows => ⟨none, 0, [finishEvent command.query rows elapsed], done⟩
  | .error failure :: _, rows =>
      ⟨some (.error failure), 0, [finishEvent command.query rows elapsed], done⟩
  | .ok row :: rest, rows =>
      match row.toItem command.shape with
      | .ok item => ⟨some (.ok item), 0, [], reading rest (rows.add 1)⟩
      | .error failure =>
          ⟨some (.error failure), 0, [finishEvent command.query (rows.add 1) elapsed], done⟩

def next (connection : Connection) (command : Command) (elapsed : Nat) :
    Enumeration → EnumerationStep
  | done => ⟨none, 0, [], done⟩
  | reading cursor rows => advance command elapsed cursor rows
  | pending =>
      let start := startEvent command.query
      match connection command.query command.params with
      | .ok cursor =>
          let step := advance command elapsed cursor .zero
          { step with opened := 1, events := start :: step.events }
      | .error failure =>
          ⟨some (.error failure), 1, [start, finishEvent command.query .zero elapsed], done⟩

def abandon (query : Sql.Query) (elapsed : Nat) : Enumeration → List Event
  | reading _ rows => [finishEvent query rows elapsed]
  | _ => []

/-! ## Running to the end -/

/-- Every item and failure that a cursor delivers, and how many rows were fetched for them. -/
def drainCursor (command : Command) :
    Cursor → Counter → List (Except ExecutionError Item) × Counter
  | [], rows => ([], rows)
  | .error failure :: _, rows => ([.error failure], rows)
  | .ok row :: rest, rows =>
      match row.toItem command.shape with
      | .ok item =>
          let drained := drainCursor command rest (rows.add 1)
          (.ok item :: drained.1, drained.2)
      | .error failure => ([.error failure], rows.add 1)

/-- Every item and failure of a fresh enumeration, and how many rows were fetched for them. -/
def drain (connection : Connection) (command : Command) :
    List (Except ExecutionError Item) × Counter :=
  match connection command.query command.params with
  | .ok cursor => drainCursor command cursor .zero
  | .error failure => ([.error failure], .zero)

def drainEvents (query : Sql.Query) (rows : Counter) (elapsed : Nat) : List Event :=
  [startEvent query, finishEvent query rows elapsed]

/-- All items, or the first failure. -/
def collect : List (Except ExecutionError Item) → Except ExecutionError (List Item)
  | [] => .ok []
  | .error failure :: _ => .error failure
  | .ok item :: rest => do return item :: (← collect rest)

end Enumeration

end QueryPlan
