import QueryPlan.Session.World

/-!
# Calls — what sessions do

Compiling goes through the session's cache and reports the text of the plan that is used.  Running a
query compiles it, reads the parameter values from the same template and enumerates the results.
-/

namespace QueryPlan
namespace Session

def observer (session : Session) : Observer :=
  if session.watched then .session else .ambient

/-- A session with its own settings over an existing cache. -/
def ofConfig (config : Config) (schema : Schema) (cache : Nat) : Session :=
  ⟨schema, cache, Compile.Rule.all, config.session.debug, false⟩

def compile (session : Session) (template : Expr) : Run (Except CompileError Plan) := do
  let compilation : Run (Except CompileError Plan × Unit) := do
    return (← Run.compilePlan session.observer session.rules session.schema template, ())
  let (result, _) ←
    Run.getOrCompile session.observer session.cache session.schema.id template compilation
  if let .ok plan := result then
    Run.observe (.explained session.debug plan.query)
  return result

def explain (session : Session) (template : Expr) : Run (Except CompileError (Option String)) := do
  return (← session.compile template).map (·.query.text?)

def query (session : Session) (connection : Nat) (rowType : RowType) (template : Expr) :
    Run (Except QueryError (List Item)) := do
  match ← session.compile template with
  | .error e => return .error (.compile e)
  | .ok plan =>
      match plan.prepare rowType.ty template with
      | .error e => return .error (.execution e)
      | .ok params =>
          let rows ← Run.collect session.observer connection ⟨plan.query, params, rowType.shape⟩
          return rows.mapError .execution

/-- Compile a template and keep it for repeated runs. -/
def prepare (session : Session) (rowType : RowType) (template : Expr) :
    Run (Except CompileError Prepared) := do
  return (← session.compile template).map fun plan => ⟨plan, template, rowType⟩

end Session

namespace Prepared

/-- Bind the values of the kept template and enumerate the results a number of times. -/
def run (prepared : Prepared) (connection : Nat) (times : Nat) :
    Run (Except ExecutionError (List (Except ExecutionError (List Item)))) := do
  match prepared.plan.prepare prepared.rowType.ty prepared.template with
  | .error e => return .error e
  | .ok params =>
      let command : Command := ⟨prepared.plan.query, params, prepared.rowType.shape⟩
      return .ok (← (List.replicate times ()).mapM fun _ =>
        Run.collect .ambient connection command)

end Prepared

end QueryPlan
