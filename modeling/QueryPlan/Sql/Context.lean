import QueryPlan.Sql.Query

/-!
# Context — a query under construction

A context is the stack of scopes built so far, the shape of the elements that the outermost scope
yields, and the parameter slots in order of registration.  Closing the outermost scope as a subquery
only ever appends, so a scope's parent has a smaller index than the scope itself.
-/

namespace QueryPlan
namespace Sql

/-- How members of the current element are written in SQL. -/
inductive Shape where
  | members (members : List (String × Term))
  | scalar (term : Term)
  deriving DecidableEq

namespace Shape

/-- The name of the single column of a scalar result. -/
def scalarName : String :=
  "value"

def member? : Shape → String → Option Term
  | members ms, name => (ms.find? (·.1 == name)).map (·.2)
  | scalar _, _ => none

def columns : Shape → List Column
  | members ms => ms.map fun m => ⟨m.2, m.1⟩
  | scalar term => [⟨term, scalarName⟩]

/-- The same shape, read from the output of a nested scope. -/
def through (scope : Nat) : Shape → Shape
  | members ms => members (ms.map fun m => (m.1, .column scope m.1))
  | scalar _ => scalar (.column scope scalarName)

end Shape

/-- A query under construction. -/
structure Context where
  /-- Scopes already closed, innermost first. -/
  inner : List Scope
  /-- The outermost scope. -/
  current : Scope
  shape : Shape
  element : Ty
  slots : List Slot

namespace Context

/-- Read a table: every mapped member is a column of the first scope. -/
def ofSource (source : TableSource) (element : Ty) : Context where
  inner := []
  current := .ofSource source
  shape := .members (source.model.fields.map fun f => (f.name, .column 0 f.column))
  element := element
  slots := []

/-- The index of the outermost scope. -/
def currentId (ctx : Context) : Nat :=
  ctx.inner.length

/-- Every scope, innermost first. -/
def scopes (ctx : Context) : List Scope :=
  ctx.inner ++ [ctx.current]

/-- Register a parameter slot; its reference is the new slot's index. -/
def addSlot (ctx : Context) (slot : Slot) : Context × Term :=
  ({ ctx with slots := ctx.slots ++ [slot] }, .param ctx.slots.length)

/-- Close the outermost scope as a subquery and continue in a fresh scope that reads from it. -/
def wrap (ctx : Context) : Context :=
  { ctx with
    inner := ctx.inner ++ [{ ctx.current with columns := ctx.shape.columns }]
    current := .ofParent ctx.currentId
    shape := ctx.shape.through ctx.currentId }

def wrapIf (ctx : Context) (condition : Bool) : Context :=
  if condition then ctx.wrap else ctx

/-- Select the element shape from the outermost scope and seal the query. -/
def finish (ctx : Context) : Query :=
  ⟨ctx.inner, { ctx.current with columns := ctx.shape.columns }, ctx.slots, ctx.element⟩

end Context

end Sql
end QueryPlan
