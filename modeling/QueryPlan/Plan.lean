import QueryPlan.Compile.Template
import QueryPlan.Expr.Alike
import QueryPlan.Metrics.Event
import QueryPlan.Row

/-!
# Plan — compiled queries that can be run again

A plan pairs a template with the query compiled from it.  It holds no parameter values: they are
read from the template that is being run, which may be any template alike to the plan's own.
-/

namespace QueryPlan

structure Plan where
  serial : Nat
  template : Expr
  /-- Identity of the schema the plan was compiled under. -/
  schema : Nat
  query : Sql.Query

namespace Plan

def compile (serial : Nat) (rules : List Compile.Rule) (schema : Schema) (template : Expr) :
    Except CompileError Plan := do
  let compiler : Compile.Compiler := ⟨rules, schema, template⟩
  return ⟨serial, template, schema.id, ← compiler.query⟩

/-- The event that reports the outcome of a compilation. -/
def compileEvent : Except CompileError Plan → Event
  | .ok plan => .compiled plan.query.element.name
  | .error _ => .compileFailed

def serves (plan : Plan) (schema : Nat) (template : Expr) : Bool :=
  plan.schema == schema && plan.template.alike template

/-- The parameter values of a template, in slot order. -/
def bind (plan : Plan) (template : Expr) : Except ExecutionError (List Value) :=
  plan.query.slots.mapM (·.bind template)

/-- Check that the plan yields elements of a requested type and serves a template, and read the
template's parameter values. -/
def prepare (plan : Plan) (requested : Ty) (template : Expr) :
    Except ExecutionError (List Value) := do
  if requested ≠ plan.query.element then
    throw (.elementMismatch plan.query.element requested)
  if !plan.template.alike template then
    throw .templateMismatch
  plan.bind template

end Plan

end QueryPlan
