import QueryPlan.Proofs.Cache.Entries
import QueryPlan.Proofs.Compile.Reuse
import QueryPlan.Proofs.Session.Ensures
import QueryPlan.Session.Workload

/-!
# Requests — what a session may be answered

Sessions that share a cache are answered from plans that were compiled for other templates and by other
sessions, over other schemas or with other registries.  What a request yields is computed from a
session, a template and the connections alone (`Sharing.outcome`), and a request shows what it would
yield to the session itself or to one that it may stand for (`Stands`): the session with the registry
and the schema of another one that shares the cache, if that one compiles the template.

The invariant `Pool.At` says that every cached plan was compiled by one of some sessions for a template
whose literals fit their types.  A plan that serves a request then holds the query that the request's own
template compiles to, because alike templates compile alike.
-/

namespace QueryPlan

open Compile (Compiler Rule)

/-! ## What can be observed -/

/-- Whether an effect reports an event. -/
def Effect.isEvent : Effect → Bool
  | event .. => true
  | _ => false

namespace World

/-- The pending effects other than events. -/
def visible (w : World) : List Effect :=
  w.effects.toList.filter (!·.isEvent)

end World

/-- A request to sessions or caches. -/
inductive Request where
  | compile (session : Nat) (template : Expr)
  | explain (session : Nat) (template : Expr)
  | query (session connection : Nat) (rowType : RowType) (template : Expr)
  | clear (cache : Nat)

/-- What a request yields, plans being known by their queries. -/
inductive Answered where
  | compiled (result : Except CompileError Sql.Query)
  | explained (result : Except CompileError (Option String))
  | rows (result : Except QueryError (List Item))
  | cleared (isEmpty : Bool)
  | unknown

/-- What can be observed of a request: its result, and the queries that were reported for diagnosis or
handed to connections with their parameter values. -/
structure Outcome where
  answered : Option Answered
  effects : List Effect

namespace Request

/-- The call that makes a request. -/
def call : Request → Call
  | compile session template => .compile session template
  | explain session template => .explain session template
  | query session connection rowType template => .query session connection rowType template
  | clear cache => .clear cache

/-- The session that a request is made to. -/
def session? : Request → Option Nat
  | compile session _ | explain session _ | query session _ _ _ => some session
  | clear _ => none

/-- The same request to another session. -/
def addressed (index : Nat) : Request → Request
  | compile _ template => compile index template
  | explain _ template => explain index template
  | query _ connection rowType template => query index connection rowType template
  | clear cache => clear cache

/-- The template of a request. -/
def template? : Request → Option Expr
  | compile _ template | explain _ template | query _ _ _ template => some template
  | clear _ => none

end Request

/-- The answer to a request; answers to other calls are not among them. -/
def Answer.answered? {α : Type} : Answer α → Option Answered
  | compiled result => some (.compiled (result.map (·.query)))
  | explained result => some (.explained result)
  | rows result => some (.rows result)
  | cleared isEmpty => some (.cleared isEmpty)
  | unknown => some .unknown
  | _ => none

/-- What can be observed of an entry. -/
def Entry.outcome : Entry → Outcome
  | .mk answer effects _ => ⟨answer.answered?, effects.filter (!·.isEvent)⟩

/-- What can be observed of a call that is made alone. -/
def Call.outcomeIn (call : Call) (w : World) : Outcome :=
  ((call.answer >>= Run.entry).run w).1.outcome

/-! ## What a request yields -/

/-- Sessions that share one cache and one registry.  A schema is known by its identity. -/
structure Sharing where
  cache : Nat
  rules : List Rule
  sessions : List Session
  connections : List Connection
  cache_eq : ∀ s ∈ sessions, s.cache = cache
  rules_eq : ∀ s ∈ sessions, s.rules = rules
  schema_eq : ∀ s ∈ sessions, ∀ s' ∈ sessions, s.schema.id = s'.schema.id → s.schema = s'.schema

/-- The query that a session compiles a template to. -/
def Session.compileQuery (session : Session) (template : Expr) : Except CompileError Sql.Query :=
  (⟨session.rules, session.schema, template⟩ : Compiler).query

namespace Sharing

variable (sharing : Sharing)

/-- The connection at an index; one that fails if there is none. -/
def connection (index : Nat) : Connection :=
  sharing.connections.getD index fun _ _ => .error (.connection "no such connection")

/-- What a query yields: the template's own query is run with the template's own values. -/
def rowsOf (session : Session) (connection : Nat) (rowType : RowType) (template : Expr) :
    Outcome :=
  match session.compileQuery template with
  | .error e => ⟨some (.rows (.error (.compile e))), []⟩
  | .ok query =>
      let plan : Plan := ⟨0, template, session.schema.id, query⟩
      match plan.prepare rowType.ty template with
      | .error e =>
          ⟨some (.rows (.error (.execution e))), [.explained session.debug query]⟩
      | .ok params =>
          let command : Command := ⟨query, params, rowType.shape⟩
          let items := (Enumeration.drain (sharing.connection connection) command).1
          ⟨some (.rows ((Enumeration.collect items).mapError .execution)),
            [.explained session.debug query, .opened connection query params]⟩

/-- The report for diagnosis that a compilation makes. -/
def explainedBy (session : Session) (template : Expr) : List Effect :=
  match session.compileQuery template with
  | .error _ => []
  | .ok query => [.explained session.debug query]

/-- What a request yields, without any cache. -/
def outcome : Request → Outcome
  | .compile session template =>
      match sharing.sessions[session]? with
      | some s => ⟨some (.compiled (s.compileQuery template)), explainedBy s template⟩
      | none => ⟨some .unknown, []⟩
  | .explain session template =>
      match sharing.sessions[session]? with
      | some s =>
          ⟨some (.explained ((s.compileQuery template).map (·.text?))), explainedBy s template⟩
      | none => ⟨some .unknown, []⟩
  | .query session connection rowType template =>
      match sharing.sessions[session]? with
      | some s => sharing.rowsOf s connection rowType template
      | none => ⟨some .unknown, []⟩
  | .clear _ => ⟨some (.cleared true), []⟩

end Sharing

/-! ## Pools -/

/-- Sessions that share one cache. -/
structure Pool where
  cache : Nat
  sessions : List Session
  connections : List Connection
  cache_eq : ∀ s ∈ sessions, s.cache = cache

/-- A session that shares with no other one. -/
def Session.alone (session : Session) (connections : List Connection) : Sharing where
  cache := session.cache
  rules := session.rules
  sessions := [session]
  connections := connections
  cache_eq := by simp
  rules_eq := by simp
  schema_eq := by simp

/-- The plan was compiled by one of some sessions, for a template whose literals fit their types. -/
def CompiledBy (models : Ty → Model) (compilers : List Session) (plan : Plan) : Prop :=
  LiteralsFit models plan.template ∧ ∃ s ∈ compilers, plan.schema = s.schema.id ∧
    s.compileQuery plan.template = .ok plan.query

/-- The sessions that a session may stand for when a template is compiled: itself, and itself with the
registry and the schema of a session that compiles the template. -/
inductive Stands (compilers : List Session) (session : Session) (template : Expr) :
    Session → Prop where
  | own : Stands compilers session template session
  | other {s : Session} {query : Sql.Query} (mem : s ∈ compilers)
      (schema : s.schema.id = session.schema.id) (compiles : s.compileQuery template = .ok query) :
      Stands compilers session template { session with rules := s.rules, schema := s.schema }

/-- A session reports for diagnosis as itself. -/
theorem Stands.debug_eq {compilers : List Session} {session s : Session} {template : Expr}
    (h : Stands compilers session template s) : s.debug = session.debug := by
  cases h <;> rfl

/-- A result that a template may be answered with. -/
structure Sharing.Answers (session : Session) (template : Expr)
    (result : Except CompileError Plan) : Prop where
  query : result.map (·.query) = session.compileQuery template
  alike : ∀ plan, result = .ok plan → plan.template.alike template = true

namespace Pool

/-- Whoever is asked, by index, is one of the given sessions. -/
def Admits (pool : Pool) (compilers : List Session) (index? : Option Nat) : Prop :=
  ∀ index session, index? = some index → pool.sessions[index]? = some session → session ∈ compilers

/-- A state of the shared world in which the given effects are pending besides events, and every cached
plan was compiled by one of the given sessions. -/
structure At (pool : Pool) (models : Ty → Model) (compilers : List Session) (visible : List Effect)
    (w : World) : Prop where
  sessions : w.sessions = pool.sessions
  connections : w.connections = pool.connections
  visible : w.visible = visible
  plans : (w.caches.getD pool.cache .usual).Holds (CompiledBy models compilers)

variable {pool : Pool} {models : Ty → Model} {compilers : List Session} {visible : List Effect}

namespace At

/-- Whatever changes neither sessions, connections nor caches keeps the invariant. -/
theorem of_eq {w w' : World} {visible' : List Effect} (h : pool.At models compilers visible w)
    (sessions : w'.sessions = w.sessions) (connections : w'.connections = w.connections)
    (caches : w'.caches = w.caches) (hvisible : w'.visible = visible') :
    pool.At models compilers visible' w' where
  sessions := sessions.trans h.sessions
  connections := connections.trans h.connections
  visible := hvisible
  plans := caches ▸ h.plans

theorem setCache {w : World} (h : pool.At models compilers visible w) {index : Nat}
    {cache : PlanCache} (hcache : index = pool.cache → cache.Holds (CompiledBy models compilers)) :
    pool.At models compilers visible { w with caches := w.caches.set index cache } where
  sessions := h.sessions
  connections := h.connections
  visible := h.visible
  plans := by
    have hplans := h.plans
    simp only [List.getD_eq_getElem?_getD] at hplans ⊢
    rw [List.getElem?_set]
    split
    · next heq =>
        split
        · exact hcache heq
        · exact PlanCache.Holds.ofValid _
    · exact hplans

/-- Before any call, when the shared cache holds no plan. -/
theorem start {caches : List PlanCache} {cache : PlanCache}
    (fresh : caches[pool.cache]? = some cache) (noPlans : cache.plans = .empty) (counted : Bool)
    (durations : Nat → Nat) :
    pool.At models compilers [] (.start caches pool.sessions pool.connections counted durations) where
  sessions := rfl
  connections := rfl
  visible := rfl
  plans := by
    rw [World.start, List.getD_eq_getElem?_getD, fresh]
    exact Recency.Holds.empty.of_slots (congrArg _ noPlans)

end At

open Run (Ensures)
open Sharing (Answers explainedBy)

theorem ensures_observe (effect : Effect) :
    Ensures (pool.At models compilers visible) (Run.observe effect)
      (fun _ => pool.At models compilers (visible ++ [effect].filter (!·.isEvent))) := by
  refine Ensures.modify fun w hw => hw.of_eq rfl rfl rfl ?_
  rw [← hw.visible, World.visible, World.visible, Array.toList_push, List.filter_append]

theorem ensures_report (observer : Observer) (event : Event) :
    Ensures (pool.At models compilers visible) (Run.report observer event)
      (fun _ => pool.At models compilers visible) := by
  refine Ensures.report (fun w hw => hw.of_eq rfl rfl rfl hw.visible) fun w hw => ?_
  have observed := ensures_observe (.event observer event) w hw
  rwa [List.filter_eq_nil_iff.2 (by simp [Effect.isEvent]), List.append_nil] at observed

theorem ensures_reportAll (observer : Observer) (events : List Event) :
    Ensures (pool.At models compilers visible) (Run.reportAll observer events)
      (fun _ => pool.At models compilers visible) :=
  Ensures.reportAll (ensures_report observer) events

theorem ensures_cache :
    Ensures (pool.At models compilers visible) (Run.cache pool.cache) (fun cache w =>
      cache.Holds (CompiledBy models compilers) ∧ pool.At models compilers visible w) := by
  refine Ensures.bind Ensures.get fun w => Ensures.pure fun w' hw => ?_
  rcases hw with ⟨rfl, hw⟩
  exact ⟨hw.plans, hw⟩

theorem ensures_setCache {index : Nat} {cache : PlanCache}
    (hcache : index = pool.cache → cache.Holds (CompiledBy models compilers)) :
    Ensures (pool.At models compilers visible) (Run.setCache index cache)
      (fun _ => pool.At models compilers visible) :=
  Ensures.modify fun _ hw => hw.setCache hcache

theorem ensures_compilePlan (observer : Observer) (rules : List Rule) (schema : Schema)
    (template : Expr) :
    Ensures (pool.At models compilers visible) (Run.compilePlan observer rules schema template)
      (fun result w => (∃ serial, result = Plan.compile serial rules schema template) ∧
        pool.At models compilers visible w) := by
  have hserial : Ensures (pool.At models compilers visible)
      (modifyGet fun w => (w.nextPlan, { w with nextPlan := w.nextPlan + 1 }) : Run Nat)
      (fun _ => pool.At models compilers visible) :=
    fun w hw => hw.of_eq rfl rfl rfl hw.visible
  refine Ensures.bind hserial fun serial => ?_
  refine Ensures.bind (ensures_report observer _) fun _ => ?_
  exact Ensures.pure fun w hw => ⟨⟨serial, rfl⟩, hw⟩

/-! ## Compiling through the cache -/

variable {session : Session} {template : Expr}

/-- A cached plan that serves a request holds the query of the request's own template. -/
theorem answers_of_serves (fits : LiteralsFit models template) {plan : Plan}
    (compiled : CompiledBy models compilers plan)
    (serves : plan.serves session.schema.id template = true) :
    ∃ s, Stands compilers session template s ∧ Answers s template (.ok plan) := by
  rcases compiled with ⟨fits', s, hs, hschema, hquery⟩
  simp only [Plan.serves, Bool.and_eq_true, beq_iff_eq] at serves
  rcases serves with ⟨hid, alike⟩
  -- The plan's template need not be the request's, but the two are interchangeable.
  have same : s.compileQuery template = .ok plan.query := by
    rw [← hquery]
    exact (Compile.query_eq_of_interchangeable s.rules s.schema
      (Interchangeable.mk alike fits' fits)).symm
  refine ⟨_, .other hs (hschema.symm.trans hid) same, same.symm, fun p hp => ?_⟩
  cases hp
  exact alike

/-- A plan compiled for a template answers it and may be cached. -/
theorem answers_of_compile (member : session ∈ compilers) (fits : LiteralsFit models template)
    {serial : Nat} {result : Except CompileError Plan}
    (h : result = Plan.compile serial session.rules session.schema template) :
    Answers session template result ∧ ∀ plan, result = .ok plan → CompiledBy models compilers plan := by
  have hquery : result.map (·.query) = session.compileQuery template := by
    rw [h, Compile.map_query_compile, Session.compileQuery]
  have hplan : ∀ plan, result = .ok plan →
      plan.template = template ∧ plan.schema = session.schema.id := by
    intro plan hplan
    rw [h, Plan.compile, Compile.bind_ok] at hplan
    rcases hplan with ⟨query, -, hpure⟩
    cases hpure
    exact ⟨rfl, rfl⟩
  refine ⟨⟨hquery, ?_⟩, ?_⟩
  · intro plan h'
    rw [(hplan plan h').1]
    exact template.alike_refl
  · intro plan h'
    rcases hplan plan h' with ⟨htemplate, hschema⟩
    refine ⟨htemplate ▸ fits, session, member, hschema, ?_⟩
    rw [htemplate, ← hquery, h']
    rfl

/-- A request is answered from the cache as it would be without, by the session or by one that it may
stand for. -/
theorem ensures_getOrCompile (shares : session.cache = pool.cache) (member : session ∈ compilers)
    (fits : LiteralsFit models template) {compilation : Run (Except CompileError Plan × Unit)}
    (hcompilation : Ensures (pool.At models compilers visible) compilation (fun result w =>
      (∃ serial, result.1 = Plan.compile serial session.rules session.schema template) ∧
        pool.At models compilers visible w)) :
    Ensures (pool.At models compilers visible)
      (Run.getOrCompile session.observer session.cache session.schema.id template compilation)
      (fun result w => (∃ s, Stands compilers session template s ∧ Answers s template result.1) ∧
        pool.At models compilers visible w) := by
  rw [shares]
  refine Ensures.bind ensures_cache fun cache => Ensures.given fun hcache => ?_
  have hprobed := hcache.probe session.schema.id template
  have hhit : ∀ plan, (cache.probe session.schema.id template).1 = .hit plan →
      CompiledBy models compilers plan ∧ plan.serves session.schema.id template = true :=
    fun _ => hcache.hit
  -- The first phase of the lookup is a value of the state read before, so it may be any value with
  -- these properties.
  revert hprobed hhit
  generalize cache.probe session.schema.id template = looked
  rcases looked with ⟨found, probed, events⟩
  intro hprobed hhit
  -- The cache is written back as the lookup left it, whether or not it was a hit.
  refine Ensures.bind (ensures_setCache fun _ => hprobed) fun _ => ?_
  refine Ensures.bind (ensures_reportAll _ events) fun _ => ?_
  cases found with
  | hit plan =>
      rcases hhit plan rfl with ⟨hplan, hserves⟩
      exact Ensures.pure fun w hw => ⟨answers_of_serves fits hplan hserves, hw⟩
  -- A disabled cache is neither read nor written.
  | bypassed =>
      refine Ensures.bind hcompilation fun result => Ensures.given fun ⟨serial, hresult⟩ => ?_
      exact Ensures.pure fun w hw =>
        ⟨⟨session, .own, (answers_of_compile member fits hresult).1⟩, hw⟩
  | miss =>
      refine Ensures.bind hcompilation fun result => Ensures.given fun ⟨serial, hresult⟩ => ?_
      rcases answers_of_compile member fits hresult with ⟨answers, cached⟩
      rcases result with ⟨result, extra⟩
      cases result with
      | error e => exact Ensures.pure fun w hw => ⟨⟨session, .own, answers⟩, hw⟩
      | ok compiled =>
          have hcompiled := cached compiled rfl
          -- The cache is read again: compiling may have taken its time.
          refine Ensures.bind ensures_cache fun cache => Ensures.given fun hcache => ?_
          obtain ⟨hsettled, hplan, hanswer⟩ :=
            hcache.settle hcompiled session.schema.id template
          refine Ensures.bind (ensures_setCache fun _ => hsettled) fun _ => ?_
          refine Ensures.bind (ensures_reportAll _ _) fun _ => ?_
          refine Ensures.pure fun w hw => ⟨?_, hw⟩
          -- Either the plan just compiled is the answer, or one that was cached in between.
          rcases hanswer with heq | hserves
          · refine ⟨session, .own, ?_⟩
            change Answers session template (.ok (cache.settle _ _ compiled).1)
            rw [heq]
            exact answers
          · exact answers_of_serves fits hplan hserves

/-- A session compiles a template and reports the query it is answered with for diagnosis. -/
theorem ensures_compile (shares : session.cache = pool.cache) (member : session ∈ compilers)
    (fits : LiteralsFit models template) :
    Ensures (pool.At models compilers visible) (session.compile template) (fun result w =>
      ∃ s, (Stands compilers session template s ∧ Answers s template result) ∧
        pool.At models compilers (visible ++ explainedBy s template) w) := by
  have hcompilation : Ensures (pool.At models compilers visible)
      (do return (← Run.compilePlan session.observer session.rules session.schema template, ()) :
        Run (Except CompileError Plan × Unit))
      (fun result w =>
        (∃ serial, result.1 = Plan.compile serial session.rules session.schema template) ∧
          pool.At models compilers visible w) :=
    Ensures.bind (ensures_compilePlan _ _ _ _) fun _ => Ensures.pure fun _ hw => hw
  refine Ensures.bind (ensures_getOrCompile shares member fits hcompilation) fun result =>
    Ensures.given fun ⟨s, stands, answers⟩ => ?_
  rcases result with ⟨result, extra⟩
  have hquery := answers.query
  refine Ensures.mono ?_ fun _ _ h => ⟨s, h⟩
  unfold explainedBy
  rw [← hquery, stands.debug_eq]
  cases result with
  | error e => exact Ensures.pure fun w hw => ⟨⟨stands, answers⟩, by simpa [Except.map] using hw⟩
  | ok plan =>
      refine Ensures.bind (ensures_observe (.explained session.debug plan.query)) fun _ => ?_
      exact Ensures.pure fun w hw => ⟨⟨stands, answers⟩, hw⟩

theorem ensures_explain (shares : session.cache = pool.cache) (member : session ∈ compilers)
    (fits : LiteralsFit models template) :
    Ensures (pool.At models compilers visible) (session.explain template) (fun result w =>
      ∃ s, (Stands compilers session template s ∧
          result = (s.compileQuery template).map (·.text?)) ∧
        pool.At models compilers (visible ++ explainedBy s template) w) := by
  refine Ensures.bind (ensures_compile shares member fits) fun result => Ensures.forSome fun s =>
    Ensures.given fun ⟨stands, answers⟩ => Ensures.pure fun w hw => ⟨s, ⟨stands, ?_⟩, hw⟩
  rw [← answers.query]
  cases result <;> rfl

/-! ## Running queries -/

/-- Preparing a plan for a template it serves is preparing the template's own plan. -/
theorem prepare_eq (plan : Plan) (serial schema : Nat) (requested : Ty)
    (alike : plan.template.alike template = true) :
    plan.prepare requested template =
      (⟨serial, template, schema, plan.query⟩ : Plan).prepare requested template := by
  unfold Plan.prepare Plan.bind
  rw [alike, template.alike_refl]

/-- The connection at an index; one that fails if there is none. -/
def connection (pool : Pool) (index : Nat) : Connection :=
  pool.connections.getD index fun _ _ => .error (.connection "no such connection")

/-- A command is handed to its connection once, and its results do not depend on the state. -/
theorem ensures_collect (observer : Observer) (index : Nat) (command : Command) :
    Ensures (pool.At models compilers visible) (Run.collect observer index command)
      (fun result w =>
        result = Enumeration.collect (Enumeration.drain (pool.connection index) command).1 ∧
          pool.At models compilers (visible ++ [.opened index command.query command.params]) w) := by
  -- The connection answers once, as a function of the command alone.
  refine Ensures.bind (R := fun items w =>
    items = (Enumeration.drain (pool.connection index) command).1 ∧
      pool.At models compilers (visible ++ [.opened index command.query command.params]) w) ?_
    fun items => Ensures.given fun hitems => Ensures.pure fun w hw => ⟨by rw [hitems], hw⟩
  refine Ensures.bind (R := fun w' w => w'.connections = pool.connections ∧
    pool.At models compilers visible w) (fun w hw => ⟨hw.connections, hw⟩) fun w' =>
      Ensures.given fun hconnections => ?_
  refine Ensures.bind (ensures_observe (.opened index command.query command.params)) fun _ => ?_
  rw [hconnections]
  refine Ensures.bind (R := fun _ => pool.At models compilers _)
    (Ensures.measure fun _ hw _ _ => hw.of_eq rfl rfl rfl hw.visible) fun elapsed => ?_
  refine Ensures.bind (ensures_reportAll observer _) fun _ => ?_
  exact Ensures.pure fun w hw => ⟨rfl, hw⟩

theorem ensures_query (shares : session.cache = pool.cache) (member : session ∈ compilers)
    (fits : LiteralsFit models template) (connection : Nat) (rowType : RowType) :
    Ensures (pool.At models compilers visible) (session.query connection rowType template)
      (fun result w => ∃ s, (Stands compilers session template s ∧
          some (.rows result) =
            ((s.alone pool.connections).rowsOf s connection rowType template).answered) ∧
        pool.At models compilers
          (visible ++ ((s.alone pool.connections).rowsOf s connection rowType template).effects) w) := by
  refine Ensures.bind (ensures_compile shares member fits) fun result => Ensures.forSome fun s =>
    Ensures.given fun ⟨stands, answers⟩ => ?_
  have hquery := answers.query
  refine Ensures.mono ?_ fun _ _ h => ⟨s, h⟩
  unfold Sharing.rowsOf explainedBy
  rw [stands.debug_eq]
  cases result with
  | error e =>
      rw [← hquery]
      exact Ensures.pure fun w hw => ⟨⟨stands, rfl⟩, hw⟩
  | ok plan =>
      rw [← hquery]
      dsimp only [Except.map]
      -- Values are read from the request's own template, whatever template the plan was compiled for.
      rw [prepare_eq plan 0 s.schema.id rowType.ty (answers.alike plan rfl)]
      cases (⟨0, template, s.schema.id, plan.query⟩ : Plan).prepare rowType.ty template with
      | error e => exact Ensures.pure fun w hw => ⟨⟨stands, rfl⟩, hw⟩
      | ok params =>
          refine Ensures.bind (ensures_collect _ _ _) fun rows => Ensures.given fun hrows => ?_
          refine Ensures.pure fun w hw => ⟨⟨stands, by rw [hrows]; rfl⟩, ?_⟩
          rwa [List.append_assoc] at hw

/-! ## Answering requests -/

/-- What a request may show: that there is no session of that index, or what it yields to a session alone
for which the one that is asked may stand. -/
inductive Shows (pool : Pool) (compilers : List Session) : Request → Outcome → Prop where
  | session {request : Request} {index : Nat} {session s : Session} {template : Expr}
      (asks : request.session? = some index) (known : pool.sessions[index]? = some session)
      (about : request.template? = some template) (stands : Stands compilers session template s) :
      Shows pool compilers request ((s.alone pool.connections).outcome (request.addressed 0))
  | unknown {request : Request} {index : Nat} (asks : request.session? = some index)
      (unknown : pool.sessions[index]? = none) :
      Shows pool compilers request ⟨some .unknown, []⟩
  | clear {cache : Nat} : Shows pool compilers (.clear cache) ⟨some (.cleared true), []⟩

/-- A call of a session answers for that session, or that there is none. -/
theorem ensures_withSession {index : Nat} {action : Session → Run (Answer Entry)}
    {Q : Answer Entry → World → Prop}
    (known : ∀ s, pool.sessions[index]? = some s →
      Ensures (pool.At models compilers visible) (action s) Q)
    (unknown : pool.sessions[index]? = none →
      ∀ w, pool.At models compilers visible w → Q .unknown w) :
    Ensures (pool.At models compilers visible) (Run.withSession index action) Q := by
  refine Ensures.bind (R := fun w' w => w'.sessions = pool.sessions ∧
    pool.At models compilers visible w) (fun w hw => ⟨hw.sessions, hw⟩) fun w' =>
      Ensures.given fun hsessions => ?_
  rw [hsessions]
  cases hindex : pool.sessions[index]? with
  | none => exact Ensures.pure (unknown hindex)
  | some s => exact known s hindex

/-- Clearing a cache leaves no plan in it. -/
theorem ensures_clear (index : Nat) (cache : PlanCache) :
    Ensures (pool.At models compilers visible) (Run.setCache index cache.clear) (fun _ w =>
      (w.caches.getD index .usual).size = 0 ∧ pool.At models compilers visible w) := by
  refine Ensures.modify fun w hw => ⟨?_, hw.setCache fun _ => PlanCache.Holds.clear cache⟩
  rw [List.getD_eq_getElem?_getD, List.getElem?_set_self']
  cases w.caches[index]? <;> rfl

/-- The call that makes a request answers what the request may show. -/
theorem ensures_answer (request : Request) (admitted : pool.Admits compilers request.session?)
    (fits : ∀ t ∈ request.template?, LiteralsFit models t) :
    Ensures (pool.At models compilers visible) request.call.answer (fun answer w =>
      ∃ outcome, (pool.Shows compilers request outcome ∧ answer.answered? = outcome.answered) ∧
        pool.At models compilers (visible ++ outcome.effects) w) := by
  -- A request to a session that does not exist is answered without a look at the cache.
  have unknown : ∀ index, request.session? = some index → pool.sessions[index]? = none →
      ∀ w, pool.At models compilers visible w →
        ∃ outcome, (pool.Shows compilers request outcome ∧
          (Answer.unknown : Answer Entry).answered? = outcome.answered) ∧
            pool.At models compilers (visible ++ outcome.effects) w :=
    fun _ asks hnone _ hw => ⟨_, ⟨.unknown asks hnone, rfl⟩, by simpa using hw⟩
  have shares : ∀ index (s : Session), pool.sessions[index]? = some s → s.cache = pool.cache :=
    fun _ s known => pool.cache_eq s (List.mem_of_getElem? known)
  cases request with
  | compile index template =>
      refine ensures_withSession (fun session known => ?_) (unknown index rfl)
      refine Ensures.bind (ensures_compile (shares index session known)
        (admitted index session rfl known) (fits template rfl)) fun result => Ensures.forSome fun s =>
          Ensures.given fun ⟨stands, answers⟩ => Ensures.pure fun w hw =>
            ⟨_, ⟨.session rfl known rfl stands, ?_⟩, hw⟩
      exact congrArg (some ∘ Answered.compiled) answers.query
  | explain index template =>
      refine ensures_withSession (fun session known => ?_) (unknown index rfl)
      refine Ensures.bind (ensures_explain (shares index session known)
        (admitted index session rfl known) (fits template rfl)) fun result => Ensures.forSome fun s =>
          Ensures.given fun ⟨stands, hresult⟩ => Ensures.pure fun w hw =>
            ⟨_, ⟨.session rfl known rfl stands, ?_⟩, hw⟩
      exact congrArg (some ∘ Answered.explained) hresult
  | query index connection rowType template =>
      refine ensures_withSession (fun session known => ?_) (unknown index rfl)
      refine Ensures.bind (ensures_query (shares index session known)
        (admitted index session rfl known) (fits template rfl) connection rowType) fun result =>
          Ensures.forSome fun s => Ensures.given fun ⟨stands, hresult⟩ =>
            Ensures.pure fun w hw => ⟨_, ⟨.session rfl known rfl stands, hresult⟩, hw⟩
  | clear index =>
      refine Ensures.bind (R := fun _ => pool.At models compilers visible) (fun w hw => hw)
        fun cache => ?_
      refine Ensures.bind (ensures_clear index cache) fun _ => ?_
      refine Ensures.bind (R := fun cache w => cache.size = 0 ∧ pool.At models compilers visible w)
        (fun w hw => hw) fun cache => Ensures.given fun hsize => Ensures.pure fun w hw => ?_
      refine ⟨_, ⟨.clear, ?_⟩, by simpa using hw⟩
      simp [Answer.answered?, hsize]

/-- Making an entry of an answer leaves nothing pending. -/
theorem ensures_entryOf (answer : Answer Entry) :
    Ensures (pool.At models compilers visible) (Run.entry answer) (fun entry w =>
      entry.outcome = ⟨answer.answered?, visible⟩ ∧ pool.At models compilers [] w) := by
  intro w hw
  refine ⟨?_, hw.of_eq rfl rfl rfl rfl⟩
  exact congrArg (Outcome.mk answer.answered?) hw.visible

/-- The entry of a request shows what the request may show, and leaves nothing pending. -/
theorem ensures_entry (request : Request) (admitted : pool.Admits compilers request.session?)
    (fits : ∀ t ∈ request.template?, LiteralsFit models t) :
    Ensures (pool.At models compilers []) (request.call.answer >>= Run.entry) (fun entry w =>
      pool.Shows compilers request entry.outcome ∧ pool.At models compilers [] w) := by
  refine Ensures.bind (ensures_answer request admitted fits) fun answer => Ensures.forSome fun outcome =>
    Ensures.given fun ⟨shows, hanswer⟩ => ?_
  refine (ensures_entryOf answer).mono fun entry w h => ⟨?_, h.2⟩
  rw [h.1, hanswer, List.nil_append]
  exact shows

end Pool

end QueryPlan
