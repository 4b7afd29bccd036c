import QueryPlan.Cache.Plans
import QueryPlan.Enumeration.Basic
import QueryPlan.Metrics.Counters

/-!
# World — what sessions share, and what they make visible

Sessions share plan caches, connections and the global counters.  A `Run` is a computation on that
shared state.  Everything that can be observed besides results is recorded as an `Effect`, in order,
until it is taken.
-/

namespace QueryPlan

/-- A session: a schema, a shared cache, a registry and reporting policy. -/
structure Session where
  schema : Schema
  /-- Index of the session's cache. -/
  cache : Nat
  rules : List Compile.Rule
  debug : Bool
  /-- Whether the session watches the events of its own calls. -/
  watched : Bool

inductive Observer where
  | session
  /-- Whoever watches outside of sessions. -/
  | ambient
  deriving DecidableEq

/-- Something that can be observed besides a result. -/
inductive Effect where
  | event (observer : Observer) (event : Event)
  /-- A query was reported for diagnosis, more prominently in debug sessions. -/
  | explained (debug : Bool) (query : Sql.Query)
  /-- A connection was asked to run a query. -/
  | opened (connection : Nat) (query : Sql.Query) (params : List Value)

/-- A compiled plan with the template that values are read from. -/
structure Prepared where
  plan : Plan
  template : Expr
  rowType : RowType

structure World where
  caches : List PlanCache
  sessions : List Session
  connections : List Connection
  /-- Prepared queries by name; the first entry of a name counts. -/
  prepared : List (String × Prepared)
  /-- Serial number of the next plan. -/
  nextPlan : Nat
  /-- Global counters; they count the events that no session watches when `counted` is set. -/
  counters : Counters
  counted : Bool
  /-- How long the enumerations to come will take, in microseconds, the next one first. -/
  durations : Nat → Nat
  /-- Effects that have not been taken yet, the latest last. -/
  effects : Array Effect

namespace World

def start (caches : List PlanCache) (sessions : List Session) (connections : List Connection)
    (counted : Bool) (durations : Nat → Nat) : World :=
  ⟨caches, sessions, connections, [], 0, .zero, counted, durations, #[]⟩

end World

abbrev Run := StateM World

namespace Run

def observe (effect : Effect) : Run Unit :=
  modify fun w => { w with effects := w.effects.push effect }

def takeEffects : Run (List Effect) :=
  modifyGet fun w => (w.effects.toList, { w with effects := #[] })

/-- Report an event: to the session that watches, or else to the counters or the outside. -/
def report (observer : Observer) (event : Event) : Run Unit := do
  if observer = .ambient ∧ (← get).counted then
    modify fun w => { w with counters := w.counters.apply event }
  else
    observe (.event observer event)

def reportAll (observer : Observer) (events : List Event) : Run Unit :=
  events.forM (report observer)

def cache (index : Nat) : Run PlanCache := do
  return (← get).caches.getD index .usual

def setCache (index : Nat) (cache : PlanCache) : Run Unit :=
  modify fun w => { w with caches := w.caches.set index cache }

/-! ## Compilation through a cache -/

def compilePlan (observer : Observer) (rules : List Compile.Rule) (schema : Schema)
    (template : Expr) : Run (Except CompileError Plan) := do
  let serial ← modifyGet fun w => (w.nextPlan, { w with nextPlan := w.nextPlan + 1 })
  let result := Plan.compile serial rules schema template
  report observer (Plan.compileEvent result)
  return result

/-- Answer a request from a cache, compiling on a miss.  The compilation may itself use the caches;
its own result is returned with the plan, if it ran. -/
def getOrCompile {β : Type} (observer : Observer) (index : Nat) (schema : Nat) (template : Expr)
    (compilation : Run (Except CompileError Plan × β)) :
    Run (Except CompileError Plan × Option β) := do
  let (found, probed, events) := (← cache index).probe schema template
  setCache index probed
  reportAll observer events
  match found with
  | .hit plan => return (.ok plan, none)
  | .bypassed =>
      let (result, extra) ← compilation
      return (result, some extra)
  | .miss =>
      let (result, extra) ← compilation
      match result with
      | .error e => return (.error e, some extra)
      | .ok compiled =>
          let (plan, settled, events) := (← cache index).settle schema template compiled
          setCache index settled
          reportAll observer events
          return (.ok plan, some extra)

/-! ## Execution -/

/-- How long an enumeration has taken, now that it ends. -/
def measure : Run Nat :=
  modifyGet fun w => (w.durations 0, { w with durations := fun later => w.durations (later + 1) })

def drain (observer : Observer) (connection : Nat) (command : Command) :
    Run (List (Except ExecutionError Item)) := do
  let failing : Connection := fun _ _ => .error (.connection "no such connection")
  let target := (← get).connections.getD connection failing
  observe (.opened connection command.query command.params)
  let (items, rows) := Enumeration.drain target command
  reportAll observer (Enumeration.drainEvents command.query rows (← measure))
  return items

def collect (observer : Observer) (connection : Nat) (command : Command) :
    Run (Except ExecutionError (List Item)) := do
  return Enumeration.collect (← drain observer connection command)

end Run

end QueryPlan
