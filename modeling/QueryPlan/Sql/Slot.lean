import QueryPlan.Error

/-!
# Slot — where a parameter's value comes from

A compiled query holds no parameter values.  Each slot records a position of the template, and the
value is read from the caller's template when the query is run, so one query serves every alike
template.
-/

namespace QueryPlan
namespace Sql

/-- What is found at a slot's position. -/
inductive SlotSource where
  /-- A literal, bound as it is. -/
  | literal
  /-- The literal of a capture environment, of which one variable is bound. -/
  | captured (name : String)
  deriving DecidableEq

structure Slot where
  path : Path
  source : SlotSource
  deriving DecidableEq

namespace Slot

/-- The value that a literal at the slot's position provides. -/
def read (slot : Slot) (literal : Value) : Except ExecutionError Value :=
  match slot.source, literal with
  | .literal, value => .ok value
  | .captured name, .closure env =>
      match env.get? name with
      | some value => .ok value
      | none => .error (.missingCapture name slot.path)
  | .captured name, other => .error (.notClosure name slot.path other.label)

/-- The slot's value in a template; only scalars can be bound. -/
def bind (slot : Slot) (template : Expr) : Except ExecutionError Value := do
  let some node := template.resolve? slot.path | .error (.unresolvedPath slot.path)
  let some literal := node.asConstant? | .error (.notLiteral slot.path node.kind)
  let value ← slot.read literal
  if value.isScalar then
    .ok value
  else
    .error (.unbindable value.label slot.path)

end Slot

end Sql
end QueryPlan
