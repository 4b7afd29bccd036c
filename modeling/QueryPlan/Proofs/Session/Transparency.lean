import QueryPlan.Proofs.Session.Requests

/-!
# Transparency — the plan cache cannot be observed

Sessions that share a cache may be answered from plans that were compiled for other templates and by
other sessions.  What a request yields does not show it: `Sharing.outcome` computes it from the
session, the template and the connections alone, without any cache or state, and every run of
requests yields exactly that.

The sessions are a pool with one registry, over schemas that are known by their identity.  Then a
session stands for itself only (`Sharing.eq_of_stands`), and the invariant of pools, here
`Sharing.At`, gives the theorem.
-/

namespace QueryPlan

open Compile (Compiler Rule)

/-- The same state with every cache disabled. -/
def World.uncached (w : World) : World :=
  { w with caches := w.caches.map fun cache => { cache with enabled := false } }

namespace Sharing

variable (sharing : Sharing)

/-! ## Invariant -/

/-- The plan was compiled for a template whose literals fit their types, under the schema of one of the
sessions. -/
def Compiled (models : Ty → Model) (plan : Plan) : Prop :=
  LiteralsFit models plan.template ∧ ∃ s ∈ sharing.sessions, plan.schema = s.schema.id ∧
    s.compileQuery plan.template = .ok plan.query

/-- A state of the shared world in which the given effects are pending besides events. -/
structure At (models : Ty → Model) (visible : List Effect) (w : World) : Prop where
  sessions : w.sessions = sharing.sessions
  connections : w.connections = sharing.connections
  visible : w.visible = visible
  plans : (w.caches.getD sharing.cache .usual).Holds (sharing.Compiled models)

/-- The sessions and their cache, whatever their registries. -/
def pool : Pool where
  cache := sharing.cache
  sessions := sharing.sessions
  connections := sharing.connections
  cache_eq := sharing.cache_eq

section Runs

variable {sharing : Sharing} {models : Ty → Model} {visible : List Effect}

open Run (Ensures)

theorem at_iff {w : World} :
    sharing.At models visible w ↔ sharing.pool.At models sharing.sessions visible w :=
  ⟨fun h => ⟨h.sessions, h.connections, h.visible, h.plans⟩,
    fun h => ⟨h.sessions, h.connections, h.visible, h.plans⟩⟩

/-- With one registry, and schemas known by their identity, a session stands for itself only. -/
theorem eq_of_stands {session s : Session} {template : Expr} (member : session ∈ sharing.sessions)
    (h : Stands sharing.sessions session template s) : s = session := by
  cases h with
  | own => rfl
  | @other s query mem schema compiles =>
      rw [(sharing.rules_eq s mem).trans (sharing.rules_eq session member).symm,
        sharing.schema_eq s mem session member schema]

/-- So a request shows what it yields. -/
theorem outcome_of_shows {request : Request} {shown : Outcome}
    (h : sharing.pool.Shows sharing.sessions request shown) : shown = sharing.outcome request := by
  cases h with
  | @session request index session s template asks known about stands =>
      have hindex : sharing.sessions[index]? = some session := known
      cases eq_of_stands (List.mem_of_getElem? hindex) stands
      cases request with
      | compile | explain | query =>
          cases asks
          cases about
          simp only [outcome, hindex]
          rfl
      | clear => cases asks
  | @unknown request index asks unknown =>
      have hindex : sharing.sessions[index]? = none := unknown
      cases request with
      | compile | explain | query =>
          cases asks
          simp only [outcome, hindex]
      | clear => cases asks
  | clear => rfl

/-- Between two requests: nothing is pending. -/
def Ready (sharing : Sharing) (models : Ty → Model) (w : World) : Prop :=
  sharing.At models [] w

/-- The entry of a request shows what the request yields, and leaves nothing pending. -/
theorem ensures_entry (request : Request)
    (fits : ∀ t ∈ request.template?, LiteralsFit models t) :
    Ensures (sharing.Ready models) (request.call.answer >>= Run.entry) (fun entry w =>
      entry.outcome = sharing.outcome request ∧ sharing.Ready models w) := by
  intro w hw
  obtain ⟨shows, hafter⟩ := Pool.ensures_entry request
    (fun _ _ _ known => List.mem_of_getElem? known) fits w (at_iff.1 hw)
  exact ⟨outcome_of_shows shows, at_iff.2 hafter⟩

/-- A run of requests shows what each of them yields, in order. -/
theorem ensures_entries (requests : List Request)
    (fits : ∀ request ∈ requests, ∀ t ∈ request.template?, LiteralsFit models t) :
    Ensures (sharing.Ready models) (Call.entries (requests.map Request.call)) (fun entries w =>
      entries.map Entry.outcome = requests.map sharing.outcome ∧ sharing.Ready models w) := by
  induction requests with
  | nil => exact Ensures.pure fun w hw => ⟨rfl, hw⟩
  | cons request rest ih =>
      rw [List.forall_mem_cons] at fits
      rw [List.map_cons, Call.entries, ← bind_assoc]
      -- The state between two requests is ready again, so the rest of the run starts like a run.
      refine Ensures.bind (ensures_entry request fits.1) fun entry => Ensures.given fun hentry => ?_
      refine Ensures.bind (ih fits.2) fun entries => Ensures.given fun hentries => ?_
      exact Ensures.pure fun w hw => ⟨by simp [hentry, hentries], hw⟩

/-- Before any call the state is ready, if the shared cache holds no plan. -/
theorem ready_start {caches : List PlanCache} {cache : PlanCache}
    (fresh : caches[sharing.cache]? = some cache) (noPlans : cache.plans = .empty)
    (counted : Bool) (durations : Nat → Nat) :
    sharing.Ready models (.start caches sharing.sessions sharing.connections counted durations) :=
  at_iff.2 (Pool.At.start fresh noPlans counted durations)

end Runs

end Sharing

/-- Every run of compile, explain, query and clear requests shows the same as if each of them were made
alone, from the start, with all caches disabled: the sessions share one cache, of whatever depth, and
one registry, over schemas known by their identity. -/
theorem cache_transparent (models : Ty → Model) (sharing : Sharing) {caches : List PlanCache}
    {config : CacheConfig} (fresh : caches[sharing.cache]? = some (.ofValid config)) (counted : Bool)
    (durations : Nat → Nat) (requests : List Request)
    (fits : ∀ request ∈ requests, ∀ t ∈ request.template?, LiteralsFit models t) :
    let w := World.start caches sharing.sessions sharing.connections counted durations
    ((Call.entries (requests.map Request.call)).run w).1.map Entry.outcome =
      requests.map fun request => request.call.outcomeIn w.uncached := by
  intro w
  have ready : sharing.Ready models w := Sharing.ready_start fresh rfl counted durations
  have uncached : w.uncached.caches[sharing.cache]? =
      some { PlanCache.ofValid config with enabled := false } := by
    simp [w, World.uncached, World.start, fresh]
  have readyUncached : sharing.Ready models w.uncached :=
    Sharing.ready_start uncached rfl counted durations
  rw [(Sharing.ensures_entries requests fits w ready).1]
  apply List.map_congr_left
  intro request hrequest
  exact ((Sharing.ensures_entry request (fits request hrequest)) w.uncached readyUncached).1.symm

/-! ## Two sessions -/

namespace Sample

open Compile.Sample (element namesakes schema)

/-- Two sessions over different schemas share a cache. -/
def sharing : Sharing where
  cache := 0
  rules := Rule.all
  sessions := [⟨schema, 0, Rule.all, false, false⟩, ⟨{ schema with id := 1 }, 0, Rule.all, true, true⟩]
  connections := [fun query params =>
    .ok (Connection.replies none 0 [(query.columnNames, params)])]
  cache_eq := by simp
  rules_eq := by simp
  schema_eq := by simp [schema]

/-- The chain of one session, asked for twice with different values, then by the other session. -/
def requests : List Request :=
  let thirty := namesakes 30 (.ofList 0 [("name", .text "Ada")])
  let forty := namesakes 40 (.ofList 1 [("name", .text "Grace")])
  [.query 0 0 ⟨element, .whole⟩ thirty, .query 0 0 ⟨element, .whole⟩ forty, .explain 1 thirty,
    .clear 0, .compile 0 forty]

end Sample

/-- The second request is answered from the plan of the first one, with its own values. -/
theorem requests_cache_transparent :
    let caches := [PlanCache.ofValid ⟨true, 1⟩]
    let w := World.start caches Sample.sharing.sessions Sample.sharing.connections true
      fun _ => 250
    caches[0]? = some (.ofValid ⟨true, 1⟩) ∧
      ((Call.entries (Sample.requests.map Request.call)).run w).2.caches.map (·.hits) = [1] ∧
      ((Call.entries (Sample.requests.map Request.call)).run w).1.map Entry.outcome =
        Sample.requests.map fun request => request.call.outcomeIn w.uncached := by
  intro caches w
  refine ⟨rfl, by decide +kernel, ?_⟩
  refine cache_transparent (fun _ => Compile.Sample.person) Sample.sharing rfl true
    (fun _ => 250) Sample.requests ?_
  intro request hrequest t ht
  simp only [Sample.requests, List.mem_cons, List.not_mem_nil, or_false] at hrequest
  rcases hrequest with rfl | rfl | rfl | rfl | rfl
  · cases ht
    exact Compile.Sample.literalsFit_namesakes _ _
  · cases ht
    exact Compile.Sample.literalsFit_namesakes _ _
  · cases ht
    exact Compile.Sample.literalsFit_namesakes _ _
  · cases ht
  · cases ht
    exact Compile.Sample.literalsFit_namesakes _ _

end QueryPlan
