import QueryPlan.Fresh
import QueryPlan.Model

/-!
# Schema — which table each entity is read from

A schema has an identity of its own: two schemas never share compiled plans, even when their
settings are equal.  Tables are overridden per model path, and a strict schema resolves nothing
else.
-/

namespace QueryPlan

/-- A resolved table that a query reads from. -/
structure TableSource where
  qualifier : Option String
  name : String
  model : Model
  deriving DecidableEq

namespace TableSource

/-- The table's name with its qualifier, if it has one. -/
def text (source : TableSource) : String :=
  match source.qualifier with
  | some qualifier => qualifier ++ "." ++ source.name
  | none => source.name

end TableSource

/-- A naming policy for tables. -/
structure Schema where
  id : Nat
  name : String
  qualifier : Option String
  /-- Table overrides by model path; the first entry for a path counts. -/
  tables : List (String × String)
  strict : Bool

namespace Schema

/-- A schema without overrides, with an identity of its own. -/
def make (name : String) : Fresh Schema := do
  return ⟨← Fresh.next, name, none, [], false⟩

def withQualifier (schema : Schema) (qualifier : String) : Schema :=
  { schema with qualifier := some qualifier }

/-- Read an entity from another table; a later override of the same model replaces this one. -/
def withTable (schema : Schema) (model : Model) (table : String) : Schema :=
  { schema with tables := (model.path, table) :: schema.tables }

/-- Resolve only the entities that have an override. -/
def strictly (schema : Schema) : Schema :=
  { schema with strict := true }

/-- The table a model is read from; a strict schema knows only its overrides. -/
def tableSource? (schema : Schema) (model : Model) : Option TableSource :=
  match schema.tables.lookup model.path with
  | some name => some ⟨schema.qualifier, name, model⟩
  | none => if schema.strict then none else some ⟨schema.qualifier, model.table, model⟩

end Schema

end QueryPlan
