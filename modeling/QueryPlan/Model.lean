/-!
# Model — how an entity type maps to a table

A model names an entity by its path, gives the table it is stored in by default, and lists its
members in order, each with the column that holds it.
-/

namespace QueryPlan

/-- One mapped member of an entity. -/
structure Field where
  /-- Member name, as used in templates and rows. -/
  name : String
  /-- Column of the mapped table. -/
  column : String
  deriving DecidableEq

/-- The mapping of one entity type. -/
structure Model where
  path : String
  table : String
  fields : List Field
  deriving DecidableEq

namespace Model

/-- The first field with a given member name. -/
def field? (model : Model) (name : String) : Option Field :=
  model.fields.find? (·.name == name)

end Model

end QueryPlan
