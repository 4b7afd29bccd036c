import QueryPlan.Cache.Recency
import QueryPlan.Config
import QueryPlan.Plan

/-!
# Plans — the cache of compiled plans

A lookup walks the cached plans from the most recently used one and takes the first that serves the
request.  A request is answered in two phases, because compilation may itself use the cache:

* `PlanCache.probe` looks the request up and counts a hit or a miss;
* after a miss, `PlanCache.settle` looks again and either keeps the plan that was inserted in the
  meantime, or makes room and inserts the new one.

The depth of the cache bounds both the number of plans and the length of a walk.

The statistics are natural numbers here, where a running cache keeps counters of 64 bits that wrap.
The two agree as long as fewer than `2 ^ 64` requests are made, since no statistic exceeds their number:
the books of a cache are proved to balance under this bound, which excludes a wrap.
-/

namespace QueryPlan

structure PlanCache where
  enabled : Bool
  depth : Nat
  plans : Recency Plan
  hits : Nat
  misses : Nat
  /-- Compiled plans that were dropped for one inserted in the meantime. -/
  discarded : Nat
  /-- Plans dropped for exceeding the depth. -/
  truncated : Nat

inductive Lookup where
  | hit (plan : Plan)
  | miss
  /-- The cache is disabled. -/
  | bypassed

namespace PlanCache

/-- An empty cache with settings that are known to be valid. -/
def ofValid (config : CacheConfig) : PlanCache :=
  ⟨config.enabled, config.depth, .empty, 0, 0, 0, 0⟩

/-- An empty cache, unless it could hold nothing. -/
def make (config : CacheConfig) : Except ConfigError PlanCache := do
  config.validate
  return ofValid config

def usual : PlanCache :=
  ofValid .usual

def settings (cache : PlanCache) : CacheConfig :=
  ⟨cache.enabled, cache.depth⟩

def size (cache : PlanCache) : Nat :=
  cache.plans.len

def toList (cache : PlanCache) : List Plan :=
  cache.plans.toList

/-- The slot and plan that serve a request. -/
def find? (cache : PlanCache) (schema : Nat) (template : Expr) : Option (Nat × Plan) :=
  cache.plans.find? cache.depth (·.serves schema template)

/-- The plan that serves a request, without counting or reordering anything. -/
def peek? (cache : PlanCache) (schema : Nat) (template : Expr) : Option Plan :=
  (cache.find? schema template).map (·.2)

/-- Drop every plan; statistics are kept. -/
def clear (cache : PlanCache) : PlanCache :=
  { cache with plans := .empty }

/-- First phase: look a request up.  A plan that is found becomes the most recently used one. -/
def probe (cache : PlanCache) (schema : Nat) (template : Expr) :
    Lookup × PlanCache × List Event :=
  if !cache.enabled then
    (.bypassed, cache, [.cache .bypassed])
  else
    match cache.find? schema template with
    | some (slot, plan) =>
        (.hit plan, { cache with plans := cache.plans.moveToFront slot, hits := cache.hits + 1 },
          [.cache .hit])
    | none => (.miss, { cache with misses := cache.misses + 1 }, [.cache .miss])

/-- Second phase: keep a compiled plan, unless one that serves the request was inserted in the
meantime; the plan that is kept becomes the most recently used one. -/
def settle (cache : PlanCache) (schema : Nat) (template : Expr) (compiled : Plan) :
    Plan × PlanCache × List Event :=
  match cache.find? schema template with
  | some (slot, plan) =>
      (plan,
        { cache with plans := cache.plans.moveToFront slot, discarded := cache.discarded + 1 },
        [.cache .discarded])
  | none =>
      let (plans, dropped) := cache.plans.truncate (cache.depth - 1)
      (compiled,
        { cache with plans := plans.pushFront compiled, truncated := cache.truncated + dropped },
        if 0 < dropped then [.truncated dropped] else [])

end PlanCache

end QueryPlan
