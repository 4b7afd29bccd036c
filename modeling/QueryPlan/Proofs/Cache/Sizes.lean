import QueryPlan.Cache.Plans
import QueryPlan.Proofs.Cache.Links

/-!
# Sizes — what the two phases of a request do to the numbers of a cache

A cache whose plans are linked in order knows how many there are.  The first phase of a request counts a
hit or a miss and leaves the number of plans as it is.  The second phase either counts a discarded plan, or
adds one plan and drops as many as it counts; so a plan that was compiled is accounted for either way.
-/

namespace QueryPlan.PlanCache

variable {cache : PlanCache}

/-- The plans are linked in some order. -/
def InOrder (cache : PlanCache) : Prop :=
  ∃ order, cache.plans.Lists order

theorem inOrder_ofValid (config : CacheConfig) : (ofValid config).InOrder :=
  ⟨[], .empty⟩

theorem inOrder_clear (cache : PlanCache) : cache.clear.InOrder :=
  ⟨[], .empty⟩

theorem InOrder.length_toList (h : cache.InOrder) : cache.toList.length = cache.size := by
  obtain ⟨order, lists⟩ := h
  rw [toList, lists.toList, List.length_map, size, lists.len]

/-- A plan that is found may be moved to the front. -/
theorem InOrder.moveToFront (h : cache.InOrder) {schema slot : Nat} {template : Expr} {plan : Plan}
    (found : cache.find? schema template = some (slot, plan)) :
    ∃ order, (cache.plans.moveToFront slot).Lists order ∧
      (cache.plans.moveToFront slot).len = cache.plans.len := by
  obtain ⟨order, lists⟩ := h
  rw [find?, lists.find?] at found
  have member : (slot, plan) ∈ order := List.mem_of_mem_take (List.mem_of_find?_eq_some found)
  obtain ⟨before, after, rfl⟩ := List.append_of_mem member
  refine ⟨_, lists.moveToFront, ?_⟩
  rw [lists.moveToFront.len, lists.len]
  simp
  omega

/-! ## The first phase -/

/-- What the first phase may find, with the cache that it leaves and the events that it reports. -/
inductive Probed (cache : PlanCache) : Lookup × PlanCache × List Event → Prop
  | bypassed (disabled : cache.enabled = false) :
      Probed cache (.bypassed, cache, [.cache .bypassed])
  | hit {plan : Plan} {plans : Recency Plan} (enabled : cache.enabled = true)
      (inOrder : InOrder { cache with plans }) (same : plans.len = cache.size) :
      Probed cache (.hit plan, { cache with plans, hits := cache.hits + 1 }, [.cache .hit])
  | miss (enabled : cache.enabled = true) :
      Probed cache (.miss, { cache with misses := cache.misses + 1 }, [.cache .miss])

theorem InOrder.probed (h : cache.InOrder) (schema : Nat) (template : Expr) :
    Probed cache (cache.probe schema template) := by
  unfold probe
  split
  case isTrue disabled => exact .bypassed (by simpa using disabled)
  case isFalse enabled =>
    have enabled : cache.enabled = true := by simpa using enabled
    split
    case h_1 slot plan found =>
      obtain ⟨order, lists, same⟩ := h.moveToFront found
      exact .hit enabled ⟨order, lists⟩ same
    case h_2 => exact .miss enabled

/-! ## The second phase -/

/-- What the second phase may do with a compiled plan. -/
inductive Settled (cache : PlanCache) (compiled : Plan) : Plan × PlanCache × List Event → Prop
  | discarded {plan : Plan} {plans : Recency Plan} (inOrder : InOrder { cache with plans })
      (same : plans.len = cache.size) :
      Settled cache compiled
        (plan, { cache with plans, discarded := cache.discarded + 1 }, [.cache .discarded])
  | inserted {plans : Recency Plan} {dropped : Nat} (inOrder : InOrder { cache with plans })
      (grown : plans.len + dropped = cache.size + 1) :
      Settled cache compiled
        (compiled, { cache with plans, truncated := cache.truncated + dropped },
          if 0 < dropped then [.truncated dropped] else [])

theorem InOrder.settled (h : cache.InOrder) (schema : Nat) (template : Expr) (compiled : Plan) :
    Settled cache compiled (cache.settle schema template compiled) := by
  unfold settle
  split
  case h_1 slot plan found =>
    obtain ⟨order, lists, same⟩ := h.moveToFront found
    exact .discarded ⟨order, lists⟩ same
  case h_2 =>
    obtain ⟨order, lists⟩ := h
    obtain ⟨kept, dropped⟩ := lists.truncate (cache.depth - 1)
    obtain ⟨index, pushed⟩ := kept.pushFront compiled
    have grown : ((cache.plans.truncate (cache.depth - 1)).1.pushFront compiled).len +
        (cache.plans.truncate (cache.depth - 1)).2 = cache.size + 1 := by
      rw [pushed.len, dropped, size, lists.len, List.length_cons, List.length_take]
      omega
    exact .inserted ⟨_, pushed⟩ grown

end QueryPlan.PlanCache
