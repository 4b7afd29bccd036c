import QueryPlan.Schema
import QueryPlan.Sql.Slot
import QueryPlan.Sql.Term

/-!
# Query — finished queries and their text

A query is a stack of scopes, one `SELECT` level each.  The innermost scope reads a table and every
other scope reads the output of its parent.  The last scope is the outermost one.

Rendering follows parents inwards.  No scope is visited twice on a path that ends, so the number of
scopes bounds the walk; a scope that reads nothing has no text.
-/

namespace QueryPlan
namespace Sql

structure OrderItem where
  term : Term
  descending : Bool
  deriving DecidableEq

structure Column where
  term : Term
  name : String
  deriving DecidableEq

/-- One `SELECT` level. -/
structure Scope where
  parent : Option Nat
  source : Option TableSource
  columns : List Column
  filter : Option Term
  orderBy : List OrderItem
  take : Option Term
  skip : Option Term
  deriving DecidableEq

namespace Scope

def ofSource (source : TableSource) : Scope :=
  ⟨none, some source, [], none, [], none, none⟩

def ofParent (parent : Nat) : Scope :=
  ⟨some parent, none, [], none, [], none, none⟩

/-- Whether a bound applies at this level, so that filters and sorts belong outside of it. -/
def isPaged (scope : Scope) : Bool :=
  scope.take.isSome || scope.skip.isSome

end Scope

/-- A finished query: the scopes inside the outermost one, the outermost one, the parameter slots
and the type of the elements it yields. -/
structure Query where
  inner : List Scope
  root : Scope
  slots : List Slot
  element : Ty
  deriving DecidableEq

namespace Query

/-- Every scope, innermost first. -/
def scopes (query : Query) : List Scope :=
  query.inner ++ [query.root]

def rootId (query : Query) : Nat :=
  query.inner.length

def columnNames (query : Query) : List String :=
  query.root.columns.map (·.name)

/-- The number of scopes on the way from a scope's parent inwards, within a bound. -/
def depthFrom (scopes : List Scope) : Nat → Scope → Nat
  | 0, _ => 0
  | bound + 1, scope =>
      match scope.parent.bind (scopes[·]?) with
      | some parent => depthFrom scopes bound parent + 1
      | none => 0

/-- The number of scopes nested below the outermost one. -/
def depth (query : Query) : Nat :=
  depthFrom query.scopes query.scopes.length query.root

/-! ## Text -/

/-- The select list; a scope without columns selects everything. -/
def columnsText (columns : List Column) : String :=
  if columns.isEmpty then
    "*"
  else
    String.intercalate ", " (columns.map fun c => c.term.text ++ " AS " ++ c.name)

def orderItemText (item : OrderItem) : String :=
  item.term.text ++ (if item.descending then " DESC" else "")

def clausesText (scope : Scope) : String :=
  (match scope.filter with
    | some filter => " WHERE " ++ filter.text
    | none => "")
  ++ (if scope.orderBy.isEmpty then
      ""
    else
      " ORDER BY " ++ String.intercalate ", " (scope.orderBy.map orderItemText))
  ++ (match scope.take with
    | some take => " LIMIT " ++ take.text
    | none => "")
  ++ (match scope.skip with
    | some skip => " OFFSET " ++ skip.text
    | none => "")

/-- The text of one scope and everything it reads, within a bound on the nesting. -/
def scopeText? (scopes : List Scope) : Nat → Nat → Option String
  | 0, _ => none
  | bound + 1, id => do
      let scope ← scopes[id]?
      let source ←
        match scope.source, scope.parent with
        | some source, _ => some (source.text ++ " " ++ Term.scopeName id)
        | none, some parent =>
            (scopeText? scopes bound parent).map fun text =>
              "(" ++ text ++ ") " ++ Term.scopeName parent
        | none, none => none
      return "SELECT " ++ columnsText scope.columns ++ " FROM " ++ source ++ clausesText scope

/-- The generic text of a query, unless one of its scopes reads nothing. -/
def text? (query : Query) : Option String :=
  scopeText? query.scopes query.scopes.length query.rootId

end Query

end Sql
end QueryPlan
