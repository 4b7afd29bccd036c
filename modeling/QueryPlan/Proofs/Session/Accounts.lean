import QueryPlan.Proofs.Cache.Programs
import QueryPlan.Proofs.Cache.Sizes
import QueryPlan.Proofs.Compile.Slots
import QueryPlan.Proofs.Session.Activities

/-!
# Accounts — requests, plans and events balance

A cache counts what it does at several points of a request: at the first look, when a compiled plan is
discarded, and when others are dropped for it.  Compile functions run in between and may make further
requests, so at any time some requests have missed and not been answered yet.  They are carried as pending.
With them the books balance after every step: each miss is a plan that is cached, was dropped, was discarded
or was cleared away, a compilation that failed, or pending.

Events report the same steps elsewhere.  In exact amounts they agree with the statistics of the cache at any
time, and as long as there are not too many requests for a counter, no counter has stopped.
-/

namespace QueryPlan

/-! ## One state of the books -/

/-- Exact amounts of what was told. -/
abbrev Amounts := OperationTotal → Nat

/-- The amounts with what an event adds. -/
def Amounts.plus (amounts : Amounts) (e : Event) : Amounts :=
  fun total => amounts total + e.adds total

/-- The books of a cache that is enabled or not, with a number of requests pending. -/
structure Accounts (enabled : Bool) (ledger : Ledger) (pending : Nat) (cache : PlanCache)
    (amounts : Amounts) : Prop where
  settings : cache.enabled = enabled
  inOrder : cache.InOrder
  /-- What is told is what the cache counts. -/
  told : amounts .cacheHits = cache.hits ∧ amounts .cacheMisses = cache.misses ∧
    amounts .cacheDiscarded = cache.discarded ∧ amounts .cacheTruncated = cache.truncated
  /-- Each request is a hit, a miss or bypasses the cache. -/
  asked : amounts .cacheHits + amounts .cacheMisses + amounts .cacheBypassed =
    ledger.requests + pending
  /-- Each compile function that runs is one of a session, which compiles once, or a direct one. -/
  compiled : amounts .plansCompiled + amounts .compileFailures + ledger.direct + pending =
    amounts .cacheMisses + amounts .cacheBypassed + ledger.plans
  on : enabled = true → amounts .cacheBypassed = 0 ∧
    cache.misses = cache.size + cache.truncated + cache.discarded + ledger.failed + ledger.removed +
      pending
  off : enabled = false → cache.hits = 0 ∧ cache.misses = 0 ∧ cache.discarded = 0 ∧
    cache.truncated = 0 ∧ cache.size = 0

namespace Accounts

variable {enabled : Bool} {ledger : Ledger} {pending : Nat} {cache : PlanCache} {amounts : Amounts}

theorem fresh (config : CacheConfig) :
    Accounts config.enabled 0 0 (.ofValid config) fun _ => 0 :=
  ⟨rfl, PlanCache.inOrder_ofValid config, ⟨rfl, rfl, rfl, rfl⟩, rfl, rfl, fun _ => ⟨rfl, rfl⟩,
    fun _ => ⟨rfl, rfl, rfl, rfl, rfl⟩⟩

/-- A cache cannot be used and out of use. -/
theorem not_off (h : Accounts enabled ledger pending cache amounts) (on : cache.enabled = true) :
    enabled ≠ false := by
  rw [← h.settings, on]
  decide

theorem hit (h : Accounts enabled ledger pending cache amounts) (on : cache.enabled = true)
    {plans : Recency Plan} (inOrder : PlanCache.InOrder { cache with plans })
    (same : plans.len = cache.size) :
    Accounts enabled (ledger + .request false) pending { cache with plans, hits := cache.hits + 1 }
      (amounts.plus (.cache .hit)) where
  settings := h.settings
  inOrder := inOrder
  told := by simpa [Amounts.plus, Event.adds] using h.told
  asked := by
    have asked := h.asked
    simp only [Amounts.plus, Event.adds, Ledger.requests_add, Ledger.request]
    omega
  compiled := h.compiled
  on e := by
    have balance := h.on e
    simpa [Amounts.plus, Event.adds, Ledger.request, PlanCache.size, same] using balance
  off e := absurd e (h.not_off on)

theorem miss (h : Accounts enabled ledger pending cache amounts) (on : cache.enabled = true) :
    Accounts enabled ledger (pending + 1) { cache with misses := cache.misses + 1 }
      (amounts.plus (.cache .miss)) where
  settings := h.settings
  inOrder := h.inOrder
  told := by simpa [Amounts.plus, Event.adds] using h.told
  asked := by
    have asked := h.asked
    simp only [Amounts.plus, Event.adds]
    omega
  compiled := by
    have compiled := h.compiled
    simp only [Amounts.plus, Event.adds]
    omega
  on e := by
    have balance := h.on e
    simp only [Amounts.plus, Event.adds, PlanCache.size] at balance ⊢
    omega
  off e := absurd e (h.not_off on)

theorem bypassed (h : Accounts enabled ledger pending cache amounts) (disabled : cache.enabled = false) :
    Accounts enabled ledger (pending + 1) cache (amounts.plus (.cache .bypassed)) where
  settings := h.settings
  inOrder := h.inOrder
  told := h.told
  asked := by
    have asked := h.asked
    simp only [Amounts.plus, Event.adds]
    omega
  compiled := by
    have compiled := h.compiled
    simp only [Amounts.plus, Event.adds]
    omega
  on e := by
    rw [← h.settings, disabled] at e
    cases e
  off := h.off

/-- A pending request that is answered with what its compile function returned: the cache was bypassed,
or there was a failure. -/
theorem returned {failed : Bool} (h : Accounts enabled ledger (pending + 1) cache amounts)
    (why : enabled = true → failed = true) :
    Accounts enabled (ledger + ⟨1, failed.toNat, 0, 1, 0⟩) pending cache amounts where
  settings := h.settings
  inOrder := h.inOrder
  told := h.told
  asked := by
    have asked := h.asked
    simp only [Ledger.requests_add]
    omega
  compiled := by
    have compiled := h.compiled
    simp only [Ledger.direct_add, Ledger.plans_add]
    omega
  on e := by
    have balance := h.on e
    simp only [why e, Ledger.failed_add, Ledger.removed_add, Bool.toNat_true]
    omega
  off := h.off

theorem discarded (h : Accounts enabled ledger (pending + 1) cache amounts) (on : cache.enabled = true)
    {plans : Recency Plan} (inOrder : PlanCache.InOrder { cache with plans })
    (same : plans.len = cache.size) :
    Accounts enabled (ledger + ⟨1, 0, 0, 1, 0⟩) pending
      { cache with plans, discarded := cache.discarded + 1 } (amounts.plus (.cache .discarded)) where
  settings := h.settings
  inOrder := inOrder
  told := by simpa [Amounts.plus, Event.adds] using h.told
  asked := by
    have asked := h.asked
    simp only [Amounts.plus, Event.adds, Ledger.requests_add]
    omega
  compiled := by
    have compiled := h.compiled
    simp only [Amounts.plus, Event.adds, Ledger.direct_add, Ledger.plans_add]
    omega
  on e := by
    have balance := h.on e
    simp only [Amounts.plus, Event.adds, Ledger.failed_add, Ledger.removed_add, PlanCache.size, same]
      at balance ⊢
    omega
  off e := absurd e (h.not_off on)

theorem inserted (h : Accounts enabled ledger (pending + 1) cache amounts) (on : cache.enabled = true)
    {plans : Recency Plan} {dropped : Nat} (inOrder : PlanCache.InOrder { cache with plans })
    (grown : plans.len + dropped = cache.size + 1) :
    Accounts enabled (ledger + ⟨1, 0, 0, 1, 0⟩) pending
      { cache with plans, truncated := cache.truncated + dropped }
      (amounts.plus (.truncated dropped)) where
  settings := h.settings
  inOrder := inOrder
  told := by simpa [Amounts.plus, Event.adds] using h.told
  asked := by
    have asked := h.asked
    simp only [Amounts.plus, Event.adds, Ledger.requests_add]
    omega
  compiled := by
    have compiled := h.compiled
    simp only [Amounts.plus, Event.adds, Ledger.direct_add, Ledger.plans_add]
    omega
  on e := by
    have balance := h.on e
    simp only [Amounts.plus, Event.adds, Ledger.failed_add, Ledger.removed_add, PlanCache.size]
      at balance grown ⊢
    omega
  off e := absurd e (h.not_off on)

theorem cleared (h : Accounts enabled ledger pending cache amounts) :
    Accounts enabled (ledger + .clearing cache.toList.length) pending cache.clear amounts where
  settings := h.settings
  inOrder := PlanCache.inOrder_clear cache
  told := h.told
  asked := h.asked
  compiled := h.compiled
  on e := by
    obtain ⟨unbypassed, balance⟩ := h.on e
    refine ⟨unbypassed, ?_⟩
    show cache.misses = 0 + cache.truncated + cache.discarded + (ledger.failed + 0) +
      (ledger.removed + cache.toList.length) + pending
    rw [h.inOrder.length_toList, balance]
    omega
  off e := by
    obtain ⟨hits, misses, discarded, truncated, -⟩ := h.off e
    exact ⟨hits, misses, discarded, truncated, rfl⟩

theorem planned (h : Accounts enabled ledger pending cache amounts) (result : Except CompileError Plan) :
    Accounts enabled (ledger + .planned) pending cache (amounts.plus (Plan.compileEvent result)) where
  settings := h.settings
  inOrder := h.inOrder
  told := by cases result <;> exact h.told
  asked := by cases result <;> exact h.asked
  compiled := by
    have compiled := h.compiled
    cases result <;>
      simp only [Amounts.plus, Plan.compileEvent, Event.adds, Ledger.planned, Ledger.direct_add,
        Ledger.plans_add] <;>
      omega
  on := by cases result <;> exact h.on
  off := h.off

theorem started (h : Accounts enabled ledger pending cache amounts) (element : String) :
    Accounts enabled ledger pending cache (amounts.plus (.started element)) :=
  ⟨h.settings, h.inOrder, h.told, h.asked, h.compiled, h.on, h.off⟩

theorem finished (h : Accounts enabled ledger pending cache amounts) (element : String)
    (rows elapsed : Nat) :
    Accounts enabled ledger pending cache (amounts.plus (.finished element rows elapsed)) :=
  ⟨h.settings, h.inOrder, h.told, h.asked, h.compiled, h.on, h.off⟩

/-- A compile function that compiles once without the cache is as good as one of a session. -/
theorem of_session {failed : Bool} {during : Option Unit}
    (h : Accounts enabled (ledger + .fetched failed (during.map fun _ => .planned)) pending cache
      amounts) :
    Accounts enabled (ledger + .request failed) pending cache amounts := by
  cases during with
  | none => exact h
  | some _ =>
    refine ⟨h.settings, h.inOrder, h.told, ?_, ?_, ?_, h.off⟩
    · simpa [Ledger.fetched, Ledger.planned, Ledger.request] using h.asked
    · have compiled := h.compiled
      simp only [Option.map_some, Ledger.fetched, Ledger.planned, Ledger.request, Ledger.direct_add,
        Ledger.plans_add] at compiled ⊢
      omega
    · simpa [Ledger.fetched, Ledger.planned, Ledger.request] using h.on

end Accounts

/-- Nothing is told of plans that were not dropped. -/
theorem Amounts.foldl_truncated (amounts : Amounts) (dropped : Nat) :
    (if 0 < dropped then [.truncated dropped] else []).foldl Amounts.plus amounts =
      amounts.plus (.truncated dropped) := by
  split
  case isTrue _ => rfl
  case isFalse none_dropped =>
    obtain rfl : dropped = 0 := by omega
    funext total
    cases total <;> rfl

/-! ## Runs -/

open Run (Ensures Holds)

/-- A world with a cache at an index, that was told events in given amounts. -/
def At (index : Nat) (cache : PlanCache) (amounts : Amounts) (w : World) : Prop :=
  Holds index cache w ∧ ∀ total, w.told.operations.get total = Saturating.zero.add (amounts total)

/-- A world in which the books of the cache at an index balance. -/
def Accounted (index : Nat) (enabled : Bool) (ledger : Ledger) (pending : Nat) (w : World) : Prop :=
  ∃ cache amounts, Accounts enabled ledger pending cache amounts ∧ At index cache amounts w

section Runs

variable {index : Nat} {cache : PlanCache} {amounts : Amounts} {enabled : Bool} {ledger : Ledger}
  {pending : Nat} {α : Type} {Q : α → World → Prop}

theorem at_cache {next : PlanCache → Run α} (h : Ensures (At index cache amounts) (next cache) Q) :
    Ensures (At index cache amounts) (Run.cache index >>= next) Q :=
  Ensures.read_of (fun _ hw => hw.1) h

theorem at_setCache (cache' : PlanCache) :
    Ensures (At index cache amounts) (Run.setCache index cache') fun _ => At index cache' amounts := by
  refine Ensures.modify fun w hw => ⟨?_, hw.2⟩
  exact List.getElem?_set_self (List.getElem?_eq_some_iff.1 hw.1).1

theorem at_observe {effect : Effect} (silent : effect.event? = none) :
    Ensures (At index cache amounts) (Run.observe effect) fun _ => At index cache amounts := by
  refine Ensures.modify fun w hw => ⟨hw.1, fun total => ?_⟩
  rw [World.get_told_push, hw.2, silent, Option.elim_none, Saturating.add_zero]

theorem at_report (observer : Observer) (e : Event) :
    Ensures (At index cache amounts) (Run.report observer e) fun _ =>
      At index cache (amounts.plus e) := by
  refine Ensures.report (fun w hw => ⟨hw.1, fun total => ?_⟩) fun w hw => ⟨hw.1, fun total => ?_⟩
  · rw [World.get_told_counted, hw.2, Saturating.add_add, Amounts.plus]
  · rw [World.get_told_push, hw.2, Saturating.add_add, Amounts.plus]
    rfl

theorem at_reportAll (observer : Observer) (events : List Event) :
    Ensures (At index cache amounts) (Run.reportAll observer events) fun _ =>
      At index cache (events.foldl Amounts.plus amounts) := by
  unfold Run.reportAll
  induction events generalizing amounts with
  | nil => exact Ensures.pure fun w hw => hw
  | cons e rest ih => exact Ensures.bind (at_report observer e) fun _ => ih

/-- Compiling without the cache. -/
theorem accounted_compilePlan (observer : Observer) (rules : List Compile.Rule) (schema : Schema)
    (template : Expr) :
    Ensures (Accounted index enabled ledger pending) (Run.compilePlan observer rules schema template)
      fun _ => Accounted index enabled (ledger + .planned) pending := by
  refine Ensures.forSome fun cache => Ensures.forSome fun amounts => Ensures.given fun books => ?_
  have serial : Ensures (At index cache amounts)
      (modifyGet fun w => (w.nextPlan, { w with nextPlan := w.nextPlan + 1 }) : Run Nat)
      (fun _ => At index cache amounts) :=
    fun _ hw => hw
  refine Ensures.bind serial fun serial => Ensures.bind (at_report observer _) fun _ => ?_
  exact Ensures.pure fun w hw => ⟨_, _, books.planned _, hw⟩

/-- A request, if the compile function keeps the books with the request pending. -/
theorem accounted_getOrCompile {β : Type} (observer : Observer) (schema : Nat) (template : Expr)
    {compilation : Run (Except CompileError Plan × β)} (ledgerOf : β → Ledger)
    (keeps : Ensures (Accounted index enabled ledger (pending + 1)) compilation fun compiled =>
      Accounted index enabled (ledger + ledgerOf compiled.2) (pending + 1)) :
    Ensures (Accounted index enabled ledger pending)
      (Run.getOrCompile observer index schema template compilation) fun fetched =>
        Accounted index enabled
          (ledger + .fetched (isFailure fetched.1) (fetched.2.map ledgerOf)) pending := by
  refine Ensures.forSome fun cache => Ensures.forSome fun amounts => Ensures.given fun books => ?_
  unfold Run.getOrCompile
  refine at_cache ?_
  have probed := books.inOrder.probed schema template
  -- The first phase is a value of the cache that was read, so any value with these properties will do.
  revert probed
  generalize cache.probe schema template = looked
  intro probed
  cases probed with
  | hit on inOrder same =>
    refine Ensures.bind (at_setCache _) fun _ => Ensures.bind (at_reportAll observer _) fun _ => ?_
    exact Ensures.pure fun w hw => ⟨_, _, books.hit on inOrder same, hw⟩
  | bypassed disabled =>
    refine Ensures.bind (at_setCache _) fun _ => Ensures.bind (at_reportAll observer _) fun _ => ?_
    refine Ensures.of_stronger (P := Accounted index enabled ledger (pending + 1))
      (fun w hw => ⟨_, _, books.bypassed disabled, hw⟩) ?_
    refine Ensures.bind keeps fun compiled => ?_
    refine Ensures.pure fun w ⟨reached, told, books', hw⟩ => ⟨reached, told, ?_, hw⟩
    rw [Option.map_some, Ledger.fetched, ← Ledger.add_assoc]
    refine books'.returned fun e => ?_
    rw [← books.settings, disabled] at e
    cases e
  | miss on =>
    refine Ensures.bind (at_setCache _) fun _ => Ensures.bind (at_reportAll observer _) fun _ => ?_
    refine Ensures.of_stronger (P := Accounted index enabled ledger (pending + 1))
      (fun w hw => ⟨_, _, books.miss on, hw⟩) ?_
    -- From here on the cache is whatever the compile function leaves.
    refine Ensures.bind keeps fun compiled => ?_
    obtain ⟨result, extra⟩ := compiled
    refine Ensures.forSome fun reached => Ensures.forSome fun told => Ensures.given fun books' => ?_
    cases result with
    | error e =>
      refine Ensures.pure fun w hw => ⟨reached, told, ?_, hw⟩
      rw [Option.map_some, Ledger.fetched, ← Ledger.add_assoc]
      exact books'.returned fun _ => rfl
    | ok fresh =>
      refine at_cache ?_
      have on' : reached.enabled = true := books'.settings.trans (books.settings.symm.trans on)
      have settled := books'.inOrder.settled schema template fresh
      revert settled
      generalize reached.settle schema template fresh = stored
      intro settled
      cases settled with
      | discarded inOrder same =>
        refine Ensures.bind (at_setCache _) fun _ => Ensures.bind (at_reportAll observer _) fun _ => ?_
        refine Ensures.pure fun w hw => ⟨_, _, ?_, hw⟩
        rw [Option.map_some, Ledger.fetched, ← Ledger.add_assoc]
        exact books'.discarded on' inOrder same
      | inserted inOrder grown =>
        refine Ensures.bind (at_setCache _) fun _ => Ensures.bind (at_reportAll observer _) fun _ => ?_
        rw [Amounts.foldl_truncated]
        refine Ensures.pure fun w hw => ⟨_, _, ?_, hw⟩
        rw [Option.map_some, Ledger.fetched, ← Ledger.add_assoc]
        exact books'.inserted on' inOrder grown

theorem accounted_observe {effect : Effect} (silent : effect.event? = none) :
    Ensures (Accounted index enabled ledger pending) (Run.observe effect) fun _ =>
      Accounted index enabled ledger pending := by
  refine Ensures.forSome fun cache => Ensures.forSome fun amounts => Ensures.given fun books => ?_
  exact (at_observe silent).mono fun _ w hw => ⟨cache, amounts, books, hw⟩

/-! ## Session calls -/

variable (session : Session) (template : Expr)

theorem accounted_compile :
    Ensures (Accounted index enabled ledger pending) ((session.over index).compile template)
      fun answer => Accounted index enabled (ledger + .request (isFailure answer)) pending := by
  unfold Session.compile
  refine Ensures.bind (accounted_getOrCompile _ _ _ (fun _ => .planned) ?_) fun fetched => ?_
  · exact Ensures.bind (accounted_compilePlan _ _ _ _) fun result => Ensures.pure fun w hw => hw
  · obtain ⟨answer, during⟩ := fetched
    -- The compile function of a session compiles once, and the books take that for granted.
    refine Ensures.of_stronger
      (P := Accounted index enabled (ledger + .request (isFailure answer)) pending)
      (fun w ⟨cache, amounts, books, hw⟩ => ⟨cache, amounts, books.of_session, hw⟩) ?_
    cases answer with
    | error e => exact Ensures.pure fun w hw => hw
    | ok plan => exact Ensures.bind (accounted_observe rfl) fun _ => Ensures.pure fun w hw => hw

theorem accounted_explain :
    Ensures (Accounted index enabled ledger pending) ((session.over index).explain template)
      fun answer => Accounted index enabled (ledger + .request (isFailure answer)) pending := by
  unfold Session.explain
  refine Ensures.bind (accounted_compile session template) fun answer => ?_
  cases answer <;> exact Ensures.pure fun w hw => hw

/-- Running a command tells of a start and a finish, which are in no account. -/
theorem accounted_collect (observer : Observer) (connection : Nat) (command : Command) :
    Ensures (Accounted index enabled ledger pending) (Run.collect observer connection command)
      fun _ => Accounted index enabled ledger pending := by
  unfold Run.collect Run.drain
  refine Ensures.bind (R := fun _ => Accounted index enabled ledger pending) ?_
    fun _ => Ensures.pure fun w hw => hw
  refine Ensures.bind (R := fun _ => Accounted index enabled ledger pending) (fun _ hw => hw)
    fun w => ?_
  refine Ensures.bind (accounted_observe rfl) fun _ => ?_
  refine Ensures.bind (R := fun _ => Accounted index enabled ledger pending)
    (Ensures.measure fun _ hw _ _ => hw) fun elapsed => ?_
  refine Ensures.bind (R := fun _ => Accounted index enabled ledger pending) ?_
    fun _ => Ensures.pure fun w hw => hw
  refine Ensures.forSome fun cache => Ensures.forSome fun amounts => Ensures.given fun books => ?_
  refine (at_reportAll observer _).mono fun _ w hw => ⟨cache, _, ?_, hw⟩
  exact (books.started _).finished _ _ _

theorem accounted_query (connection : Nat) (rowType : RowType) :
    Ensures (Accounted index enabled ledger pending)
      ((session.over index).query connection rowType template)
      fun answer => Accounted index enabled (ledger + .request (isUnplanned answer)) pending := by
  unfold Session.query
  refine Ensures.bind (accounted_compile session template) fun answer => ?_
  cases answer with
  | error e => exact Ensures.pure fun w hw => hw
  | ok plan =>
    dsimp only
    split
    · exact Ensures.pure fun w hw => hw
    · refine Ensures.bind (accounted_collect _ _ _) fun rows => Ensures.pure fun _ hw => ?_
      cases rows <;> exact hw

end Runs

/-! ## Whole activities -/

namespace Activity

variable {index : Nat} {enabled : Bool} {ledger : Ledger} {pending : Nat}

/-- What is done later goes on from the books that were kept so far. -/
theorem ensures_later {m : Run (Except CompileError Plan × Ledger)} {done : Ledger}
    (h : Ensures (Accounted index enabled (ledger + done) pending) m fun ran =>
      Accounted index enabled (ledger + done + ran.2) pending) :
    Ensures (Accounted index enabled (ledger + done) pending)
      (do
        let (result, later) ← m
        return (result, done + later))
      fun ran => Accounted index enabled (ledger + ran.2) pending :=
  Ensures.bind h fun ran => Ensures.pure fun _ hw => Ledger.add_assoc ledger done ran.2 ▸ hw

/-- An activity keeps the books, with whatever requests are pending meanwhile. -/
theorem ensures_accounted (observer : Observer) (index : Nat) (activity : Activity) :
    Ensures (Accounted index enabled ledger pending) (activity.run observer index) fun ran =>
      Accounted index enabled (ledger + ran.2) pending := by
  induction activity generalizing ledger pending with
  | finish result => exact Ensures.pure fun w hw => hw
  | peek key next ih =>
    refine Ensures.forSome fun cache => Ensures.forSome fun amounts => Ensures.given fun books => ?_
    refine at_cache (Ensures.of_stronger (P := Accounted index enabled ledger pending) ?_ (ih _))
    exact fun w hw => ⟨cache, amounts, books, hw⟩
  | clear next ih =>
    refine Ensures.forSome fun cache => Ensures.forSome fun amounts => Ensures.given fun books => ?_
    refine at_cache (Ensures.bind (at_setCache _) fun _ => ?_)
    exact Ensures.of_stronger (fun w hw => ⟨_, amounts, books.cleared, hw⟩) (ensures_later ih)
  | plan rules schema template next ih =>
    exact Ensures.bind (accounted_compilePlan _ _ _ _) fun answer => ensures_later (ih answer)
  | fetch key compilation next ihCompilation ihNext =>
    refine Ensures.bind (accounted_getOrCompile _ _ _ id ihCompilation) fun fetched => ?_
    rw [Option.map_id_fun, id]
    exact ensures_later (ihNext _)
  | compile session template next ih =>
    exact Ensures.bind (accounted_compile session template) fun answer => ensures_later (ih answer)
  | explain session template next ih =>
    exact Ensures.bind (accounted_explain session template) fun answer => ensures_later (ih answer)
  | query session connection rowType template next ih =>
    exact Ensures.bind (accounted_query session template connection rowType) fun answer =>
      ensures_later (ih answer)

/-- What a run leaves: the statistics of the cache add up to what was asked, and what was told agrees. -/
structure Balanced (enabled : Bool) (ledger : Ledger) (cache : PlanCache) (told : Operations) :
    Prop where
  /-- Each request is a hit or a miss. -/
  requests : enabled = true → cache.hits + cache.misses = ledger.requests
  /-- Each miss is a plan that is cached, dropped, discarded or cleared away, or a failure. -/
  misses : enabled = true → cache.misses =
    cache.size + cache.truncated + cache.discarded + ledger.failed + ledger.removed
  /-- A disabled cache counts nothing. -/
  idle : enabled = false → cache.hits = 0 ∧ cache.misses = 0 ∧ cache.discarded = 0 ∧
    cache.truncated = 0 ∧ cache.size = 0
  told_hits : told.cacheHits.value = cache.hits
  told_misses : told.cacheMisses.value = cache.misses
  told_discarded : told.cacheDiscarded.value = cache.discarded
  told_truncated : told.cacheTruncated.value = cache.truncated
  /-- Sessions compile once for each of their requests that was no hit. -/
  sessions : ledger.direct = 0 → ledger.plans = 0 →
    told.plansCompiled.value + told.compileFailures.value =
      told.cacheMisses.value + told.cacheBypassed.value
  /-- So it is beside direct requests, apart from the compile functions and compilations of these. -/
  compilations : ledger.requests + ledger.plans < 2 ^ 64 →
    told.plansCompiled.value + told.compileFailures.value + ledger.direct =
      told.cacheMisses.value + told.cacheBypassed.value + ledger.plans

theorem value_of_told {counter : Counter} {amount : Nat} (told : counter = Saturating.zero.add amount)
    (few : amount < 2 ^ 64) : counter.value = amount := by
  rw [told, Saturating.value_zero_add]
  exact Nat.min_eq_right (Nat.le_sub_one_of_lt few)

/-- The books balance at the end, when no request is pending and no counter can have stopped. -/
theorem balanced_of_accounts {cache : PlanCache} {amounts : Amounts} {told : Operations}
    (books : Accounts enabled ledger 0 cache amounts)
    (agree : ∀ total, told.get total = Saturating.zero.add (amounts total))
    (few : ledger.requests < 2 ^ 64) : Balanced enabled ledger cache told := by
  obtain ⟨hits, misses, discarded, truncated⟩ := books.told
  have asked := books.asked
  have compiled := books.compiled
  have stored : cache.discarded + cache.truncated ≤ cache.misses := by
    cases enabled with
    | true => have balance := (books.on rfl).2; omega
    | false => obtain ⟨-, -, none, none', -⟩ := books.off rfl; omega
  have exact_of (total : OperationTotal) (small : amounts total < 2 ^ 64) :
      (told.get total).value = amounts total :=
    value_of_told (agree total) small
  have told_misses : told.cacheMisses.value = amounts .cacheMisses :=
    exact_of .cacheMisses (by omega)
  have told_bypassed : told.cacheBypassed.value = amounts .cacheBypassed :=
    exact_of .cacheBypassed (by omega)
  have compilations (bound : ledger.requests + ledger.plans < 2 ^ 64) :
      told.plansCompiled.value + told.compileFailures.value + ledger.direct =
        told.cacheMisses.value + told.cacheBypassed.value + ledger.plans := by
    have told_compiled : told.plansCompiled.value = amounts .plansCompiled :=
      exact_of .plansCompiled (by omega)
    have told_failures : told.compileFailures.value = amounts .compileFailures :=
      exact_of .compileFailures (by omega)
    omega
  exact
    { requests := fun e => by have unbypassed := (books.on e).1; omega
      misses := fun e => (books.on e).2
      idle := books.off
      told_hits := (exact_of .cacheHits (by omega)).trans hits
      told_misses := told_misses.trans misses
      told_discarded := (exact_of .cacheDiscarded (by omega)).trans discarded
      told_truncated := (exact_of .cacheTruncated (by omega)).trans truncated
      sessions := fun none_direct none_planned => by
        have balance := compilations (by omega)
        omega
      compilations := compilations }

/-- Whatever goes on around a new cache, with fewer requests than a counter can count: the statistics of
the cache balance, and counting all events from scratch gives the same totals. -/
theorem accounts_balanced (observer : Observer) (config : CacheConfig) {index : Nat} {w : World}
    (new : w.caches[index]? = some (.ofValid config)) (silent : w.told = .zero) (activity : Activity)
    (few : ((activity.run observer index).run w).1.2.requests < 2 ^ 64) :
    ∃ cache, ((activity.run observer index).run w).2.caches[index]? = some cache ∧
      Balanced config.enabled ((activity.run observer index).run w).1.2 cache
        ((activity.run observer index).run w).2.told.operations := by
  have start : Accounted index config.enabled 0 0 w := by
    refine ⟨_, _, .fresh config, new, fun total => ?_⟩
    rw [silent]
    cases total <;> rfl
  obtain ⟨cache, amounts, books, held, told⟩ := ensures_accounted observer index activity w start
  rw [Ledger.zero_add] at books
  exact ⟨cache, held, balanced_of_accounts books told few⟩

namespace Sample

open Compile.Sample (element namesakes schema)

/-- A request during which a session is answered for the same class; a request that fails; a session
without rules; and then, once everything was cleared away, three classes in a cache for two. -/
def dealings : Activity :=
  let people (age : Int64) : Expr := namesakes age (.ofList 0 [("name", .text "Ada")])
  let session : Session := ⟨schema, 0, Compile.Rule.all, false, true⟩
  let abroad : Session := { session with schema := { schema with id := 1 }, watched := false }
  let bare : Session := { session with schema := { schema with id := 2 }, rules := [] }
  let during : Activity :=
    .compile session (people 40) fun _ => .plan Compile.Rule.all schema (people 30) .finish
  .fetch ⟨0, people 30⟩ during fun _ =>
    .fetch ⟨3, people 30⟩ (.finish (.error (.detachedLink .bool))) fun _ =>
      .compile bare (people 30) fun _ =>
        .explain session (people 50) fun _ =>
          .clear <|
            .query session 0 ⟨element, .whole⟩ (people 30) fun _ =>
              .compile abroad (people 30) fun _ =>
                .fetch ⟨4, people 30⟩ (.plan Compile.Rule.all { schema with id := 4 } (people 30) .finish)
                  fun _ => .peek ⟨1, people 30⟩ fun _ => .clear <| .compile abroad (people 30) .finish

def dealers : World :=
  .start [.ofValid ⟨true, 2⟩] [] [fun query params =>
    .ok (Connection.replies none 0 [(query.columnNames, params)])] true fun _ => 250

def dealt : (Except CompileError Plan × Ledger) × World :=
  (dealings.run .ambient 0).run dealers

end Sample

/-- Of eight misses one plan is cached, one was dropped, one discarded and three were cleared away; two
requests failed. -/
theorem dealings_balanced :
    Sample.dealers.caches[0]? = some (.ofValid ⟨true, 2⟩) ∧ Sample.dealers.told = .zero ∧
      Sample.dealt.1.2 = ⟨9, 2, 3, 3, 2⟩ ∧ Sample.dealt.1.2.requests < 2 ^ 64 ∧
      (Sample.dealt.2.caches.map fun cache =>
        (cache.misses, cache.size, cache.truncated, cache.discarded)) = [(8, 1, 1, 1)] ∧
      ∃ cache, Sample.dealt.2.caches[0]? = some cache ∧
        Balanced true Sample.dealt.1.2 cache Sample.dealt.2.told.operations := by
  have new : Sample.dealers.caches[0]? = some (.ofValid ⟨true, 2⟩) := rfl
  have silent : Sample.dealers.told = .zero := rfl
  have amounts : Sample.dealt.1.2 = ⟨9, 2, 3, 3, 2⟩ := by decide +kernel
  have few : Sample.dealt.1.2.requests < 2 ^ 64 := by rw [amounts]; decide
  refine ⟨new, silent, amounts, few, by decide +kernel, ?_⟩
  unfold Sample.dealt at few ⊢
  exact accounts_balanced .ambient ⟨true, 2⟩ new silent Sample.dealings few

end Activity

end QueryPlan
