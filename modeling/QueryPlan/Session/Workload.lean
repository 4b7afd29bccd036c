import QueryPlan.Metrics.Report
import QueryPlan.Session.Calls

/-!
# Workload — scripts of calls on shared caches

A workload is a list of calls.  A direct fetch from a cache compiles by a function that may run
further calls first, on the same caches, to any depth; this is how a request that is answered while
another one compiles is expressed.  Every call yields an entry: its answer, the effects since the
previous entry, and the state afterwards.
-/

namespace QueryPlan

/-- How a direct fetch compiles, after the calls made during it. -/
inductive Compilation where
  | fails (cause : CompileError)
  /-- The compile function compiles a template under a schema with a complete registry. -/
  | compiles (schema : Schema) (template : Expr)

inductive Call where
  | compile (session : Nat) (template : Expr)
  | compileAll (session : Nat) (templates : List Expr)
  | explain (session : Nat) (template : Expr)
  | query (session connection : Nat) (rowType : RowType) (template : Expr)
  | prepare (session : Nat) (rowType : RowType) (name : String) (template : Expr)
  | run (name : String) (connection times : Nat)
  /-- Fetch a plan from a cache directly, making further calls while compiling. -/
  | fetch (cache : Nat) (schema : Schema) (template : Expr) (during : List Call)
      (compilation : Compilation)
  | peek (cache : Nat) (schema : Schema) (template : Expr)
  | clear (cache : Nat)
  /-- Look a session up, and the settings of its cache. -/
  | settings (session : Nat)
  | report
  | reset

/-- The answer to a call; entries of nested calls have type `α`. -/
inductive Answer (α : Type) where
  | compiled (result : Except CompileError Plan)
  | compiledAll (results : List (Except CompileError Plan))
  | explained (result : Except CompileError (Option String))
  | rows (result : Except QueryError (List Item))
  | prepared (result : Except CompileError Prepared)
  | ran (prepared : Prepared)
      (result : Except ExecutionError (List (Except ExecutionError (List Item))))
  /-- A plan or the failure to compile it, and the entries of the calls made while compiling, if the
  compile function ran. -/
  | fetched (result : Except CompileError Plan) (during : Option (List α))
  | peeked (plan : Option Plan)
  | cleared (isEmpty : Bool)
  | settings (session : Session) (cache : CacheConfig)
  | reported (report : Report)
  | done
  /-- There is no session or prepared query of that name. -/
  | unknown

/-- What a call leaves behind. -/
inductive Entry where
  | mk (answer : Answer Entry) (effects : List Effect) (after : World)

namespace Run

def entry (answer : Answer Entry) : Run Entry := do
  let effects ← takeEffects
  return .mk answer effects (← get)

/-- Act in the name of a session. -/
def withSession (index : Nat) (action : Session → Run (Answer Entry)) : Run (Answer Entry) := do
  match (← get).sessions[index]? with
  | some session => action session
  | none => return .unknown

end Run

namespace Compilation

def run : Compilation → Run (Except CompileError Plan)
  | fails cause => return .error cause
  | compiles schema template => Run.compilePlan .ambient Compile.Rule.all schema template

end Compilation

namespace Call

mutual

def answer : Call → Run (Answer Entry)
  | compile session template =>
      Run.withSession session fun s => return .compiled (← s.compile template)
  | compileAll session templates =>
      Run.withSession session fun s => return .compiledAll (← templates.mapM s.compile)
  | explain session template =>
      Run.withSession session fun s => return .explained (← s.explain template)
  | query session connection rowType template =>
      Run.withSession session fun s => return .rows (← s.query connection rowType template)
  | prepare session rowType name template =>
      Run.withSession session fun s => do
        let result ← s.prepare rowType template
        if let .ok prepared := result then
          modify fun w => { w with prepared := (name, prepared) :: w.prepared }
        return .prepared result
  | run name connection times => do
      match (← get).prepared.lookup name with
      | some prepared => return .ran prepared (← prepared.run connection times)
      | none => return .unknown
  | fetch cache schema template during compilation => do
      let nested : Run (Except CompileError Plan × List Entry) := do
        let entries ← entries during
        return (← compilation.run, entries)
      let (result, entries) ← Run.getOrCompile .ambient cache schema.id template nested
      return .fetched result entries
  | peek cache schema template => do
      return .peeked ((← Run.cache cache).peek? schema.id template)
  | clear cache => do
      Run.setCache cache (← Run.cache cache).clear
      return .cleared ((← Run.cache cache).size == 0)
  | settings session =>
      Run.withSession session fun s => do
        return .settings s (← Run.cache s.cache).settings
  | report => do
      return .reported (Report.ofSnapshot ⟨(← get).counters, 0⟩)
  | reset => do
      modify fun w => { w with counters := .zero }
      return .done
termination_by structural c => c

/-- Make calls in order, with an entry for each. -/
def entries : List Call → Run (List Entry)
  | [] => return []
  | call :: rest => do
      let answered ← call.answer
      let first ← Run.entry answered
      return first :: (← entries rest)
termination_by structural cs => cs

end

end Call

end QueryPlan
