import QueryPlan.Proofs.Compile.Registry
import QueryPlan.Proofs.Session.Requests

/-!
# Registries — sessions that share a cache but not a registry

A cached plan is found by its schema and its template; the registry that compiled it plays no part.  A
session may therefore be answered with a plan that rules of another session have compiled.  This shows
only if the session's own rules refuse the template: rules beyond the ones that a template needs make
no difference, so two sessions that both compile it compile it to the same query.

The two-run theorem compares what a request shows after a history of calls by two sessions with what it
shows after the calls of the second session alone.  Both histories keep the invariant of pools, the one
with plans compiled by either session and the other one with plans of the second session only.
-/

namespace QueryPlan

open Compile (Rule)

/-! ## Histories -/

namespace Call

/-- The session that a call is made to. -/
def session? : Call → Option Nat
  | compile session _ | compileAll session _ | explain session _ | query session _ _ _
  | prepare session _ _ _ | settings session => some session
  | run .. | fetch .. | peek .. | clear .. | report | reset => none

/-- The templates that a call has compiled by its session; a fetch brings a compile function of its
own. -/
def templates? : Call → Option (List Expr)
  | compile _ template | explain _ template | query _ _ _ template | prepare _ _ _ template =>
      some [template]
  | compileAll _ templates => some templates
  | run .. | peek .. | clear .. | settings .. | report | reset => some []
  | fetch .. => none

/-- The call leaves compiling to sessions, and the literals of its templates fit their types. -/
def Fits (models : Ty → Model) (call : Call) : Prop :=
  ∃ templates, call.templates? = some templates ∧ ∀ t ∈ templates, LiteralsFit models t

end Call

/-- The state after some calls. -/
def World.after (w : World) (calls : List Call) : World :=
  ((Call.entries calls).run w).2

namespace Pool

open Run (Ensures)

/-- A state that keeps the invariant, whatever effects are pending. -/
def Invariant (pool : Pool) (models : Ty → Model) (compilers : List Session) (w : World) : Prop :=
  ∃ visible, pool.At models compilers visible w

section Histories

variable {pool : Pool} {models : Ty → Model} {compilers : List Session}

/-- Whatever changes neither sessions, connections nor caches keeps the invariant. -/
theorem Invariant.of_eq {w w' : World} (h : pool.Invariant models compilers w)
    (sessions : w'.sessions = w.sessions) (connections : w'.connections = w.connections)
    (caches : w'.caches = w.caches) : pool.Invariant models compilers w' := by
  rcases h with ⟨visible, hw⟩
  exact ⟨_, hw.of_eq sessions connections caches rfl⟩

theorem keeps_request (request : Request) (admitted : pool.Admits compilers request.session?)
    (fits : ∀ t ∈ request.template?, LiteralsFit models t) :
    Ensures (pool.Invariant models compilers) request.call.answer
      fun _ => pool.Invariant models compilers :=
  Ensures.forSome fun _ => (ensures_answer request admitted fits).mono fun _ _ ⟨_, _, hw⟩ => ⟨_, hw⟩

theorem keeps_compile {session : Session} {template : Expr} (shares : session.cache = pool.cache)
    (member : session ∈ compilers) (fits : LiteralsFit models template) :
    Ensures (pool.Invariant models compilers) (session.compile template)
      fun _ => pool.Invariant models compilers :=
  Ensures.forSome fun _ => (ensures_compile shares member fits).mono fun _ _ ⟨_, _, hw⟩ => ⟨_, hw⟩

theorem keeps_run (prepared : Prepared) (connection times : Nat) :
    Ensures (pool.Invariant models compilers) (prepared.run connection times)
      fun _ => pool.Invariant models compilers := by
  unfold Prepared.run
  split
  · exact Ensures.pure fun _ hw => hw
  · next params _ =>
      refine Ensures.bind (Ensures.mapM fun _ _ => ?_) fun _ => Ensures.pure fun _ hw => hw
      exact Ensures.forSome fun _ => (ensures_collect _ _ _).mono fun _ _ ⟨_, hw⟩ => ⟨_, hw⟩

theorem keeps_withSession {index : Nat} {action : Session → Run (Answer Entry)}
    (known : ∀ s, pool.sessions[index]? = some s →
      Ensures (pool.Invariant models compilers) (action s) fun _ => pool.Invariant models compilers) :
    Ensures (pool.Invariant models compilers) (Run.withSession index action)
      fun _ => pool.Invariant models compilers :=
  Ensures.forSome fun visible => ensures_withSession
    (fun s hs w hw => known s hs w ⟨visible, hw⟩) fun _ _ hw => ⟨visible, hw⟩

/-- Every call that leaves compiling to sessions keeps the invariant. -/
theorem keeps_call {call : Call} (admitted : pool.Admits compilers call.session?)
    (fits : call.Fits models) :
    Ensures (pool.Invariant models compilers) call.answer
      fun _ => pool.Invariant models compilers := by
  rcases fits with ⟨templates, htemplates, fits⟩
  have shares : ∀ index (s : Session), pool.sessions[index]? = some s → s.cache = pool.cache :=
    fun _ s known => pool.cache_eq s (List.mem_of_getElem? known)
  cases call with
  | compile index template =>
      cases htemplates
      exact keeps_request (.compile index template) admitted
        (by simpa [Request.template?] using fits)
  | explain index template =>
      cases htemplates
      exact keeps_request (.explain index template) admitted
        (by simpa [Request.template?] using fits)
  | query index connection rowType template =>
      cases htemplates
      exact keeps_request (.query index connection rowType template) admitted
        (by simpa [Request.template?] using fits)
  | clear cache => exact keeps_request (.clear cache) admitted (by simp [Request.template?])
  | compileAll index templates =>
      cases htemplates
      refine keeps_withSession fun s known => ?_
      refine Ensures.bind (Ensures.mapM fun t ht => ?_) fun _ => Ensures.pure fun _ hw => hw
      exact keeps_compile (shares index s known) (admitted index s rfl known) (fits t ht)
  | prepare index rowType name template =>
      cases htemplates
      refine keeps_withSession fun s known => ?_
      refine Ensures.bind (R := fun _ => pool.Invariant models compilers)
        (Ensures.bind (keeps_compile (shares index s known) (admitted index s rfl known)
          (by simpa using fits)) fun _ => Ensures.pure fun _ hw => hw) fun result => ?_
      cases result with
      | error e => exact Ensures.pure fun _ hw => hw
      | ok prepared =>
          exact Ensures.bind (R := fun _ => pool.Invariant models compilers)
            (Ensures.modify fun _ hw => hw.of_eq rfl rfl rfl) fun _ => Ensures.pure fun _ hw => hw
  | run name connection times =>
      refine Ensures.bind (R := fun _ => pool.Invariant models compilers) (fun _ hw => hw) fun w => ?_
      split
      · exact Ensures.bind (keeps_run _ _ _) fun _ => Ensures.pure fun _ hw => hw
      · exact Ensures.pure fun _ hw => hw
  -- A fetch brings a compile function of its own and is not among the calls.
  | fetch => cases htemplates
  | settings index =>
      exact keeps_withSession fun _ _ _ hw => hw
  | reset => exact fun _ hw => hw.of_eq rfl rfl rfl
  | peek | report => exact fun _ hw => hw

/-- Calls made in order keep the invariant, and nothing is pending after them. -/
theorem at_after {calls : List Call} (admitted : ∀ call ∈ calls, pool.Admits compilers call.session?)
    (fits : ∀ call ∈ calls, call.Fits models) {w : World} (hw : pool.At models compilers [] w) :
    pool.At models compilers [] (w.after calls) := by
  have entries : Ensures (pool.At models compilers []) (Call.entries calls)
      fun _ => pool.At models compilers [] := by
    clear hw
    induction calls with
    | nil => exact Ensures.pure fun _ hw => hw
    | cons call rest ih =>
        rw [List.forall_mem_cons] at admitted fits
        -- The answer leaves effects pending, which its entry takes.
        have answer : Ensures (pool.At models compilers []) call.answer
            fun _ => pool.Invariant models compilers :=
          fun w hw => keeps_call admitted.1 fits.1 w ⟨[], hw⟩
        refine Ensures.bind answer fun answered => Ensures.forSome fun visible => ?_
        refine Ensures.bind (ensures_entryOf answered) fun entry => Ensures.given fun _ => ?_
        exact Ensures.bind (ih admitted.2 fits.2) fun _ => Ensures.pure fun _ hw => hw
  exact entries w hw

end Histories

end Pool

/-! ## Two sessions -/

/-- Among its own plans a session stands for itself. -/
theorem Stands.eq_of_alone {session s : Session} {template : Expr}
    (h : Stands [session] session template s) : s = session := by
  cases h with
  | own => rfl
  | other mem =>
      cases List.mem_singleton.1 mem
      rfl

/-- What a request yields to a session depends on the query that its template compiles to. -/
theorem Session.outcome_congr {s s' : Session} {request : Request} {t : Expr}
    (about : request.template? = some t) (compiled : s.compileQuery t = s'.compileQuery t)
    (schema : s.schema = s'.schema) (debug : s.debug = s'.debug) (connections : List Connection) :
    (s.alone connections).outcome (request.addressed 0) =
      (s'.alone connections).outcome (request.addressed 0) := by
  cases request with
  | compile index template | explain index template | query index connection rowType template =>
      cases about
      simp only [Request.addressed, Sharing.outcome, Session.alone, List.getElem?_cons_zero,
        Sharing.explainedBy, Sharing.rowsOf, Sharing.connection, compiled, schema, debug]
  | clear cache => cases about

namespace Pool

/-- Two sessions with one cache. -/
def pair (first second : Session) (connections : List Connection)
    (shares : second.cache = first.cache) : Pool where
  cache := first.cache
  sessions := [first, second]
  connections := connections
  cache_eq := by simp [shares]

section Pair

variable {first second : Session} {connections : List Connection}
  {shares : second.cache = first.cache} {compilers : List Session} {request : Request}
  {models : Ty → Model}

/-- All but the requests to the first session are answered for the second one. -/
theorem admits_second {index? : Option Nat} (notFirst : index? ≠ some 0) :
    (pair first second connections shares).Admits [second] index? := by
  rintro index session rfl known
  match index with
  | 0 => exact absurd rfl notFirst
  | 1 =>
      cases known
      exact List.mem_singleton_self _
  | _ + 2 => cases known

/-- A request to the second session shows what it yields to a session that this one may stand for. -/
theorem shown_of_shows {shown : Outcome} (asks : request.session? = some 1)
    (h : (pair first second connections shares).Shows compilers request shown) :
    ∃ t s, request.template? = some t ∧ Stands compilers second t s ∧
      shown = (s.alone connections).outcome (request.addressed 0) := by
  cases h with
  | session asks' known about stands =>
      cases asks.symm.trans asks'
      cases known
      exact ⟨_, _, about, stands, rfl⟩
  | unknown asks' unknown =>
      cases asks.symm.trans asks'
      cases unknown
  | clear => cases asks

/-- If all cached plans are its own, a request to the second session shows what it yields to it alone. -/
theorem shown_of_own (asks : request.session? = some 1)
    (fits : ∀ t ∈ request.template?, LiteralsFit models t) {w : World}
    (hw : (pair first second connections shares).At models [second] [] w) :
    request.call.outcomeIn w = (second.alone connections).outcome (request.addressed 0) := by
  have shows := (ensures_entry request (admits_second (by simp [asks])) fits w hw).1
  rcases shown_of_shows asks shows with ⟨t, s, -, stands, hshown⟩
  rw [stands.eq_of_alone] at hshown
  exact hshown

end Pair

end Pool

/-- After any calls of two sessions with one cache and one schema, on templates whose literals fit their
types, a request to the second session shows what it would show if the first session had made no calls,
with one exception: if the second session's rules refuse the template and those of the first session
compile it, the request may show what it would show if the second session had the first one's rules. -/
theorem registry_observed_only_when_refused (models : Ty → Model) (first second : Session)
    (shares : second.cache = first.cache) (schema : second.schema = first.schema)
    {caches : List PlanCache} {config : CacheConfig}
    (fresh : caches[first.cache]? = some (.ofValid config)) (connections : List Connection)
    (counted : Bool) (durations : Nat → Nat) {before : List Call} (fits : ∀ call ∈ before, call.Fits models)
    {request : Request} (asks : request.session? = some 1)
    (fits' : ∀ t ∈ request.template?, LiteralsFit models t) :
    let w := World.start caches [first, second] connections counted durations
    let shown := request.call.outcomeIn (w.after before)
    shown = request.call.outcomeIn (w.after (before.filter (·.session? ≠ some 0))) ∨
      ∃ t ∈ request.template?,
        (∃ link, second.compileQuery t = .error (.unacceptedLink link)) ∧
        (∃ query, first.compileQuery t = .ok query) ∧
        shown = request.call.outcomeIn
          (.start caches [first, { second with rules := first.rules }] connections counted
            durations) := by
  intro w shown
  let pool := Pool.pair first second connections shares
  -- After all calls the cache holds plans of both sessions.
  have both : ∀ index? : Option Nat, pool.Admits [first, second] index? :=
    fun _ _ _ _ known => List.mem_of_getElem? known
  have after : pool.At models [first, second] [] (w.after before) :=
    Pool.at_after (fun _ _ => both _) fits (.start fresh rfl counted durations)
  obtain ⟨t, s, about, stands, hshown⟩ :=
    Pool.shown_of_shows asks (Pool.ensures_entry request (both _) fits' _ after).1
  -- After the calls that are left it holds plans of the second session only.
  have others : pool.At models [second] [] (w.after (before.filter (·.session? ≠ some 0))) := by
    refine Pool.at_after (fun call hcall => Pool.admits_second ?_) (fun call hcall => ?_)
      (.start fresh rfl counted durations)
    · simpa using (List.mem_filter.1 hcall).2
    · exact fits call (List.mem_filter.1 hcall).1
  rw [Pool.shown_of_own asks fits' others, show shown = _ from hshown]
  cases stands with
  | own => exact .inl rfl
  | @other s query mem hid compiles =>
      simp only [List.mem_cons, List.not_mem_nil, or_false] at mem
      rcases mem with rfl | rfl
      · rcases Compile.Compiler.query_eq_or_refused compiles second.rules with same | refused
        -- Both registries compile the template, and so to the same query.
        · have compiled : ({ second with rules := s.rules, schema := s.schema } :
              Session).compileQuery t = second.compileQuery t :=
            compiles.trans (by rw [Session.compileQuery, schema, same])
          exact .inl (Session.outcome_congr about compiled schema.symm rfl connections)
        · refine .inr ⟨t, about, by rwa [Session.compileQuery, schema], ⟨query, compiles⟩, ?_⟩
          have like : (Pool.pair s { second with rules := s.rules } connections shares).At models
              [{ second with rules := s.rules }] []
              (.start caches [s, { second with rules := s.rules }] connections counted durations) :=
            .start fresh rfl counted durations
          rw [Pool.shown_of_own asks fits' like, ← schema]
      · exact .inl rfl

/-! ## A session that reads tables only -/

/-- The text that an entry shows as an explanation. -/
def Outcome.explainedText? (outcome : Outcome) : Option String :=
  match outcome.answered with
  | some (.explained (.ok text)) => text
  | _ => none

namespace Sample

open Compile.Sample (element namesakes person schema)

/-- A session with a complete registry. -/
def complete : Session :=
  ⟨schema, 0, Rule.all, false, false⟩

/-- A session that reads tables and refuses every operator. -/
def tablesOnly : Session :=
  { complete with rules := [.table] }

/-- Both sessions over one cache, before any call. -/
def shared : World :=
  .start [.ofValid ⟨true, 4⟩] [complete, tablesOnly] [] true fun _ => 250

/-- A table of elements that are people by their type, mapped by a model. -/
def tableOf (model : Model) : Expr :=
  ⟨0, .table element, .constant (.table ⟨model, element⟩)⟩

/-- The first five people. -/
def firstFive : Expr :=
  ⟨2, .queryable element, .call Operator.take.method none
    [tableOf person, ⟨1, .int32, .constant (.int 5)⟩]⟩

/-- Another entity, with a table of its own. -/
def twin : Model :=
  ⟨"Twin", "twins", [⟨"age", "twin_age"⟩]⟩

end Sample

/-- A session is answered with a plan that its own registry refuses to compile, once another session has
compiled it.  Where the literals do not fit their types, it is even answered with the plan of another
table, whatever the registries. -/
theorem plans_leak_between_registries :
    (Call.explain 1 Sample.firstFive).outcomeIn
        (Sample.shared.after [.explain 0 Sample.firstFive]) ≠
      (Call.explain 1 Sample.firstFive).outcomeIn Sample.shared ∧
    (Call.explain 1 (Sample.tableOf Sample.twin)).outcomeIn
        (Sample.shared.after [.explain 0 (Sample.tableOf Compile.Sample.person)]) ≠
      (Call.explain 1 (Sample.tableOf Sample.twin)).outcomeIn Sample.shared := by
  constructor
  · intro h
    have text := congrArg Outcome.explainedText? h
    revert text
    decide +kernel
  · intro h
    have text := congrArg Outcome.explainedText? h
    revert text
    decide +kernel

/-- A session that refuses filters and bounds is answered as one that has them, after the other session
has prepared an alike chain and it has itself read a table. -/
theorem namesakes_observed_when_refused :
    let thirty := Compile.Sample.namesakes 30 (.ofList 0 [("name", .text "Ada")])
    let forty := Compile.Sample.namesakes 40 (.ofList 1 [("name", .text "Grace")])
    let people := Sample.tableOf Compile.Sample.person
    let before : List Call :=
      [.prepare 0 ⟨Compile.Sample.element, .whole⟩ "namesakes" thirty, .explain 1 people]
    let request : Request := .explain 1 forty
    let shown := request.call.outcomeIn (Sample.shared.after before)
    (∀ call ∈ before, call.Fits fun _ => Compile.Sample.person) ∧
      (∀ t ∈ request.template?, LiteralsFit (fun _ => Compile.Sample.person) t) ∧
      shown ≠ request.call.outcomeIn (Sample.shared.after (before.filter (·.session? ≠ some 0))) ∧
      shown = request.call.outcomeIn (.start [.ofValid ⟨true, 4⟩]
        [Sample.complete, { Sample.tablesOnly with rules := Sample.complete.rules }] [] true fun _ => 250) := by
  intro thirty forty people before request shown
  have fits : ∀ call ∈ before, call.Fits fun _ => Compile.Sample.person := by
    refine List.forall_mem_cons.2 ⟨⟨[thirty], rfl, ?_⟩, List.forall_mem_singleton.2 ⟨[people], rfl, ?_⟩⟩
    · exact List.forall_mem_singleton.2 (Compile.Sample.literalsFit_namesakes _ _)
    · exact List.forall_mem_singleton.2 (.literal rfl)
  have fits' : ∀ t ∈ request.template?, LiteralsFit (fun _ => Compile.Sample.person) t := by
    rintro t ⟨⟩
    exact Compile.Sample.literalsFit_namesakes _ _
  have differs : shown ≠
      request.call.outcomeIn (Sample.shared.after (before.filter (·.session? ≠ some 0))) := by
    intro h
    have text := congrArg Outcome.explainedText? h
    revert text
    decide +kernel
  have fresh : [PlanCache.ofValid ⟨true, 4⟩][Sample.complete.cache]? = some (.ofValid ⟨true, 4⟩) := rfl
  have observed := registry_observed_only_when_refused (fun _ => Compile.Sample.person)
    Sample.complete Sample.tablesOnly rfl rfl fresh [] true (fun _ => 250) fits
    rfl fits'
  obtain ⟨t, -, -, -, hshown⟩ := observed.resolve_left differs
  exact ⟨fits, fits', differs, hshown⟩

end QueryPlan
