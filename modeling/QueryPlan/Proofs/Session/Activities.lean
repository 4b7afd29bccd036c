import QueryPlan.Proofs.Cache.Recent
import QueryPlan.Proofs.Metrics.Totals
import QueryPlan.Session.Calls

/-!
# Activities — what goes on around one cache, and what is told of it

Sessions and direct users make requests to a cache, look plans up and clear it.  Running an activity yields,
besides its result, a ledger: how many requests were made and failed, how many plans were cleared away, and
how often something was compiled that no session asked for.

What a world was told is counted from scratch, whether its events were counted as they came or were handed
to someone who watches.
-/

namespace QueryPlan

/-! ## Activities -/

/-- What goes on around one cache.  Sessions and direct users make requests, look plans up and clear the
cache; what is done next may depend on all answers so far.  A direct request comes with a compile function
that is an activity again, so it may fail, return any plan and make requests of its own. -/
inductive Activity where
  | finish (result : Except CompileError Plan)
  | peek (key : PlanKey) (next : Option Plan → Activity)
  | clear (next : Activity)
  /-- Compile a template without the cache. -/
  | plan (rules : List Compile.Rule) (schema : Schema) (template : Expr)
      (next : Except CompileError Plan → Activity)
  | fetch (key : PlanKey) (compilation : Activity) (next : Except CompileError Plan → Activity)
  | compile (session : Session) (template : Expr) (next : Except CompileError Plan → Activity)
  | explain (session : Session) (template : Expr)
      (next : Except CompileError (Option String) → Activity)
  | query (session : Session) (connection : Nat) (rowType : RowType) (template : Expr)
      (next : Except QueryError (List Item) → Activity)

/-- What an activity amounts to for the books. -/
@[ext]
structure Ledger where
  /-- Requests to the cache, by sessions and direct ones. -/
  requests : Nat
  /-- Requests that were answered with a failure. -/
  failed : Nat
  /-- Plans that were cleared away. -/
  removed : Nat
  /-- Compile functions of direct requests that ran. -/
  direct : Nat
  /-- Compilations without the cache. -/
  plans : Nat
  deriving DecidableEq

namespace Ledger

instance : Zero Ledger :=
  ⟨⟨0, 0, 0, 0, 0⟩⟩

instance : Add Ledger :=
  ⟨fun a b => ⟨a.requests + b.requests, a.failed + b.failed, a.removed + b.removed,
    a.direct + b.direct, a.plans + b.plans⟩⟩

/-- A request. -/
def request (failed : Bool) : Ledger :=
  ⟨1, failed.toNat, 0, 0, 0⟩

/-- Plans that are cleared away. -/
def clearing (removed : Nat) : Ledger :=
  ⟨0, 0, removed, 0, 0⟩

/-- A compilation without the cache. -/
def planned : Ledger :=
  ⟨0, 0, 0, 0, 1⟩

/-- A direct request, with what its compile function amounted to if it ran. -/
def fetched (failed : Bool) : Option Ledger → Ledger
  | none => request failed
  | some during => during + ⟨1, failed.toNat, 0, 1, 0⟩

variable (a b c : Ledger)

@[simp]
theorem requests_add : (a + b).requests = a.requests + b.requests :=
  rfl

@[simp]
theorem failed_add : (a + b).failed = a.failed + b.failed :=
  rfl

@[simp]
theorem removed_add : (a + b).removed = a.removed + b.removed :=
  rfl

@[simp]
theorem direct_add : (a + b).direct = a.direct + b.direct :=
  rfl

@[simp]
theorem plans_add : (a + b).plans = a.plans + b.plans :=
  rfl

theorem zero_add : 0 + a = a := by
  ext <;> exact Nat.zero_add _

theorem add_assoc : a + b + c = a + (b + c) := by
  ext <;> exact Nat.add_assoc ..

end Ledger

/-- The session over another cache. -/
def Session.over (session : Session) (index : Nat) : Session :=
  { session with cache := index }

/-- Whether there is no plan for a request. -/
def isFailure {α : Type} : Except CompileError α → Bool
  | .ok _ => false
  | .error _ => true

/-- Whether a query got no plan. -/
def isUnplanned {α : Type} : Except QueryError α → Bool
  | .error (.compile _) => true
  | _ => false

namespace Activity

/-- Run an activity on the cache at an index; returns its result and what it amounted to. -/
def run (observer : Observer) (index : Nat) : Activity → Run (Except CompileError Plan × Ledger)
  | finish result => return (result, 0)
  | peek key next => do
      let cache ← Run.cache index
      (next (cache.peek? key.schema key.template)).run observer index
  | clear next => do
      let cache ← Run.cache index
      Run.setCache index cache.clear
      let (result, later) ← next.run observer index
      return (result, .clearing cache.toList.length + later)
  | plan rules schema template next => do
      let answer ← Run.compilePlan observer rules schema template
      let (result, later) ← (next answer).run observer index
      return (result, .planned + later)
  | fetch key compilation next => do
      let (answer, during) ←
        Run.getOrCompile observer index key.schema key.template (compilation.run observer index)
      let (result, later) ← (next answer).run observer index
      return (result, .fetched (isFailure answer) during + later)
  | compile session template next => do
      let answer ← (session.over index).compile template
      let (result, later) ← (next answer).run observer index
      return (result, .request (isFailure answer) + later)
  | explain session template next => do
      let answer ← (session.over index).explain template
      let (result, later) ← (next answer).run observer index
      return (result, .request (isFailure answer) + later)
  | query session connection rowType template next => do
      let answer ← (session.over index).query connection rowType template
      let (result, later) ← (next answer).run observer index
      return (result, .request (isUnplanned answer) + later)

end Activity

/-! ## What is told -/

/-- The event that an effect reports. -/
def Effect.event? : Effect → Option Event
  | event _ e => some e
  | _ => none

namespace World

/-- Counters of everything that was reported: of the events that were counted already, and of those that
were handed to someone and are pending. -/
def told (w : World) : Counters :=
  w.counters.applyAll (w.effects.toList.filterMap Effect.event?)

section Told

variable (w : World) (total : OperationTotal)

theorem get_told_counted (e : Event) :
    ({ w with counters := w.counters.apply e } : World).told.operations.get total =
      (w.told.operations.get total).add (e.adds total) := by
  rw [told, told, Counters.get_applyAll, Counters.get_applyAll, Counters.get_apply,
    Saturating.add_add, Saturating.add_add, Nat.add_comm]

theorem get_told_push (effect : Effect) :
    ({ w with effects := w.effects.push effect } : World).told.operations.get total =
      (w.told.operations.get total).add (effect.event?.elim 0 (·.adds total)) := by
  rw [told, told, Array.toList_push, List.filterMap_append, Counters.get_applyAll,
    Counters.get_applyAll, List.map_append, List.sum_append, Saturating.add_add]
  cases reported : effect.event? <;> simp [reported]

end Told

end World

end QueryPlan
