import QueryPlan.Proofs.Cache.Arena
import QueryPlan.Proofs.Cache.LeastRecent

/-!
# Capacity — a cache needs no more slots than it may hold plans

A request does nothing to the arena of a cache but what `Recency.Operation` lists, so along every program
the arena is one that these operations make.  It grows only when no slot is free, which is to say that all
slots are linked; and then there are fewer of them than the depth, because a new plan is inserted after the
list was cut down for it.
-/

namespace QueryPlan

open Recency (Numbered Operation)

/-! ## Slots in use -/

namespace Recency

variable {α : Type} {r : Recency α}

/-- Operations on an empty list made this one. -/
def Made (r : Recency α) : Prop :=
  ∃ operations, (Operation.performAll Operation.onArena .empty operations).1 = r

theorem made_empty : (.empty : Recency α).Made :=
  ⟨[], rfl⟩

theorem Made.perform (h : r.Made) (operation : Operation α) : (operation.onArena r).1.Made := by
  rcases h with ⟨operations, rfl⟩
  exact ⟨operations ++ [operation], Operation.performAll_concat ..⟩

theorem Made.exists_tracks (h : r.Made) : ∃ list, r.Tracks list := by
  rcases h with ⟨operations, rfl⟩
  exact ⟨_, (Tracks.empty.performAll operations).1⟩

/-- An entry that is added after all but `keep` were dropped needs a new slot only if there are no more
than `keep` slots. -/
theorem Tracks.size_insert {list : Numbered α} (h : r.Tracks list) (keep : Nat) (entry : α) :
    ((r.truncate keep).1.pushFront entry).slots.size ≤ max r.slots.size (keep + 1) := by
  have kept := (h.truncate keep).1
  have same : (r.truncate keep).1.slots.size = r.slots.size :=
    (h.toLists.dropBack (r.len - keep)).2.2.2
  cases hspare : (list.truncate keep).1.spare with
  -- No slot is spare, so all of them are linked.
  | nil =>
      have full := kept.full
      rw [hspare, List.length_nil, Nat.add_zero] at full
      calc
        ((r.truncate keep).1.pushFront entry).slots.size
            = (r.truncate keep).1.slots.size + 1 :=
              (pushFront_of_full (kept.recycled.trans hspare) entry).2.2
        _ = (list.truncate keep).1.entries.length + 1 := by rw [full]
        _ ≤ keep + 1 := Nat.add_le_add_right (List.length_take_le ..) 1
        _ ≤ max r.slots.size (keep + 1) := Nat.le_max_right ..
  | cons slot rest =>
      calc
        ((r.truncate keep).1.pushFront entry).slots.size
            = (r.truncate keep).1.slots.size :=
              (pushFront_of_free (kept.recycled.trans hspare) entry).2.2
        _ = r.slots.size := same
        _ ≤ max r.slots.size (keep + 1) := Nat.le_max_left ..

end Recency

/-! ## Caches -/

namespace PlanCache

/-- A property of caches that no phase of a request and no clearing takes away. -/
structure Lasting (P : PlanCache → Prop) : Prop where
  probe : ∀ cache schema template, P cache → P (cache.probe schema template).2.1
  settle : ∀ cache schema template compiled,
    P cache → P (cache.settle schema template compiled).2.1
  clear : ∀ cache, P cache → P cache.clear

/-- The arena of a cache is one that operations make, and has at most as many slots as the cache may hold
plans. -/
structure Fits (depth : Nat) (cache : PlanCache) : Prop where
  depth_eq : cache.depth = depth
  made : cache.plans.Made
  bounded : cache.plans.slots.size ≤ depth

theorem fits_ofValid (config : CacheConfig) : (ofValid config).Fits config.depth :=
  ⟨rfl, Recency.made_empty, Nat.zero_le _⟩

namespace Fits

variable {depth : Nat} {cache : PlanCache}

/-- A plan that is found moves to the front, whatever is counted for it. -/
theorem moveToFront (h : cache.Fits depth) (slot : Nat) :
    (cache.plans.moveToFront slot).Made ∧ (cache.plans.moveToFront slot).slots.size ≤ depth := by
  refine ⟨h.made.perform (.moveToFront slot), ?_⟩
  rw [(Recency.relinked_moveToFront cache.plans slot).size]
  exact h.bounded

theorem probe (h : cache.Fits depth) (schema : Nat) (template : Expr) :
    (cache.probe schema template).2.1.Fits depth := by
  unfold PlanCache.probe
  split
  · exact h
  · split
    · next slot plan found => exact ⟨h.depth_eq, (h.moveToFront slot).1, (h.moveToFront slot).2⟩
    · exact ⟨h.depth_eq, h.made, h.bounded⟩

theorem settle (h : cache.Fits depth) (positive : 0 < depth) (schema : Nat) (template : Expr)
    (compiled : Plan) : (cache.settle schema template compiled).2.1.Fits depth := by
  unfold PlanCache.settle
  split
  · next slot plan found => exact ⟨h.depth_eq, (h.moveToFront slot).1, (h.moveToFront slot).2⟩
  -- Room is made for the plan, and then it is added.
  · have made : ((cache.plans.truncate (cache.depth - 1)).1.pushFront compiled).Made :=
      (h.made.perform (.truncate (cache.depth - 1))).perform (.pushFront compiled)
    have room : cache.depth - 1 + 1 = depth := by rw [h.depth_eq, Nat.sub_add_cancel positive]
    rcases h.made.exists_tracks with ⟨list, tracks⟩
    have size := tracks.size_insert (cache.depth - 1) compiled
    rw [room, Nat.max_eq_right h.bounded] at size
    exact ⟨h.depth_eq, made, size⟩

end Fits

theorem lasting_fits {depth : Nat} (positive : 0 < depth) : Lasting (Fits depth) where
  probe _ schema template h := h.probe schema template
  settle _ schema template compiled h := h.settle positive schema template compiled
  clear _ h := ⟨h.depth_eq, Recency.made_empty, Nat.zero_le _⟩

end PlanCache

/-! ## Programs -/

namespace Run

variable {α : Type} {index : Nat} {P : PlanCache → Prop} {Q : α → World → Prop}

/-- The cache at an index has a property. -/
def Keeps (index : Nat) (P : PlanCache → Prop) (w : World) : Prop :=
  ∃ cache, P cache ∧ Holds index cache w

theorem Ensures.readKept {next : PlanCache → Run α}
    (h : ∀ cache, P cache → Ensures (Keeps index P) (next cache) Q) :
    Ensures (Keeps index P) (Run.cache index >>= next) Q := by
  refine Ensures.forSome fun cache => Ensures.given fun hcache => Ensures.read ?_
  exact Ensures.of_stronger (fun w hw => ⟨cache, hcache, hw⟩) (h cache hcache)

theorem Ensures.writeKept {cache : PlanCache} {next : Unit → Run α} (hcache : P cache)
    (h : Ensures (Keeps index P) (next ()) Q) :
    Ensures (Keeps index P) (setCache index cache >>= next) Q := by
  refine Ensures.forSome fun _ => Ensures.given fun _ => Ensures.write ?_
  exact Ensures.of_stronger (fun w hw => ⟨cache, hcache, hw⟩) h

theorem keeps_reportAll (observer : Observer) (events : List Event) :
    Ensures (Keeps index P) (reportAll observer events) fun _ => Keeps index P :=
  Ensures.reportAll (fun _ => Ensures.report (fun _ hw => hw) (fun _ hw => hw)) events

/-- A request keeps what its two phases and its compile function keep.  What else the compile function
establishes of the value that it returns beside the plan is `R`. -/
theorem keeps_getOrCompile {β : Type} (lasting : PlanCache.Lasting P) (observer : Observer)
    (schema : Nat) (template : Expr) {compilation : Run (Except CompileError Plan × β)}
    {R : β → Prop}
    (h : Ensures (Keeps index P) compilation fun compiled w => R compiled.2 ∧ Keeps index P w) :
    Ensures (Keeps index P) (getOrCompile observer index schema template compilation)
      fun fetched w => (∀ extra, fetched.2 = some extra → R extra) ∧ Keeps index P w := by
  unfold getOrCompile
  refine Ensures.readKept fun cache hcache => ?_
  have hprobed := lasting.probe cache schema template hcache
  revert hprobed
  rcases cache.probe schema template with ⟨found, probed, events⟩
  intro hprobed
  refine Ensures.writeKept hprobed (Ensures.bind (keeps_reportAll observer events) fun _ => ?_)
  cases found with
  | hit plan => exact Ensures.pure fun w hw => ⟨by simp, hw⟩
  | bypassed =>
      refine Ensures.bind h fun compiled => Ensures.given fun hextra => ?_
      exact Ensures.pure fun w hw => ⟨fun _ hsome => Option.some.inj hsome ▸ hextra, hw⟩
  | miss =>
      refine Ensures.bind h fun compiled => Ensures.given fun hextra => ?_
      rcases compiled with ⟨result, extra⟩
      cases result with
      | error e => exact Ensures.pure fun w hw => ⟨fun _ hsome => Option.some.inj hsome ▸ hextra, hw⟩
      | ok fresh =>
          refine Ensures.readKept fun reached hreached => ?_
          have hsettled := lasting.settle reached schema template fresh hreached
          revert hsettled
          rcases reached.settle schema template fresh with ⟨plan, settled, events⟩
          intro hsettled
          refine Ensures.writeKept hsettled (Ensures.bind (keeps_reportAll observer events) fun _ => ?_)
          exact Ensures.pure fun w hw => ⟨fun _ hsome => Option.some.inj hsome ▸ hextra, hw⟩

end Run

namespace CacheStep

/-- A step starts from a cache with a property and leaves one. -/
def Within (P : PlanCache → Prop) (step : CacheStep) : Prop :=
  P step.before ∧ P step.after

end CacheStep

namespace Program

open Run (Ensures Keeps)

/-- Along every program, a lasting property of the cache holds before and after each step. -/
theorem ensures_within {P : PlanCache → Prop} (lasting : PlanCache.Lasting P) (observer : Observer)
    (index : Nat) (program : Program) :
    Ensures (Keeps index P) (program.run observer index) fun ran w =>
      (∀ step ∈ ran.2, step.Within P) ∧ Keeps index P w := by
  induction program with
  | finish result => exact Ensures.pure fun w hw => ⟨by simp, hw⟩
  | peek key next ih =>
      refine Ensures.readKept fun cache hcache => ?_
      refine Ensures.bind (ih _) fun ran => Ensures.given fun hsteps => Ensures.pure fun w hw => ?_
      exact ⟨List.forall_mem_cons.2 ⟨⟨hcache, hcache⟩, hsteps⟩, hw⟩
  | clear next ih =>
      refine Ensures.readKept fun before hbefore => ?_
      refine Ensures.writeKept (lasting.clear before hbefore) ?_
      refine Ensures.readKept fun after hafter => ?_
      refine Ensures.bind ih fun ran => Ensures.given fun hsteps => Ensures.pure fun w hw => ?_
      exact ⟨List.forall_mem_cons.2 ⟨⟨hbefore, hafter⟩, hsteps⟩, hw⟩
  | fetch key compilation next ihCompilation ihNext =>
      refine Ensures.readKept fun before hbefore => ?_
      -- The steps of a compile function come with the cache that it leaves.
      let R (extra : List CacheStep × Except CompileError Plan × PlanCache) : Prop :=
        (∀ step ∈ extra.1, step.Within P) ∧ P extra.2.2
      refine Ensures.bind (Run.keeps_getOrCompile (R := R) lasting observer _ _ ?_) fun fetched => ?_
      · refine Ensures.readKept fun missed hmissed => ?_
        refine Ensures.bind ihCompilation fun ran => Ensures.given fun hsteps => ?_
        refine Ensures.readKept fun reached hreached => Ensures.pure fun w hw => ?_
        exact ⟨⟨List.forall_mem_cons.2 ⟨⟨hbefore, hmissed⟩, hsteps⟩, hreached⟩, hw⟩
      · refine Ensures.given fun hextra => Ensures.readKept fun after hafter => ?_
        refine Ensures.bind (ihNext _) fun ran => Ensures.given fun hsteps => ?_
        refine Ensures.pure fun w hw => ⟨List.forall_mem_append.2 ⟨?_, hsteps⟩, hw⟩
        rcases fetched with ⟨answer, compiled⟩
        cases compiled with
        | none => exact List.forall_mem_singleton.2 ⟨hbefore, hafter⟩
        | some extra =>
            rcases hextra extra rfl with ⟨hnested, hreached⟩
            exact List.forall_mem_append.2 ⟨hnested, List.forall_mem_singleton.2 ⟨hreached, hafter⟩⟩

end Program

namespace Recency

/-- Whatever is done to an empty recency list, it represents the plain list that the same operations make,
and drops as many entries as they do.  The arena of a cache is such a list at any time, and never has more
slots than the cache may hold plans. -/
theorem arena_represents_list :
    (∀ {α : Type} (operations : List (Operation α)),
      let arena := Operation.performAll Operation.onArena Recency.empty operations
      let plain := Operation.performAll Operation.onList Numbered.empty operations
      arena.1.Represents plain.1 ∧ arena.2 = plain.2) ∧
    ∀ (observer : Observer) (config : CacheConfig) (index : Nat) (w : World) (program : Program),
      config.validate = .ok () → w.caches[index]? = some (.ofValid config) →
        ∀ step ∈ ((program.run observer index).run w).1.2,
          step.before.Fits config.depth ∧ step.after.Fits config.depth := by
  constructor
  · intro α operations arena plain
    rcases Tracks.empty.performAll operations with ⟨tracks, dropped⟩
    exact ⟨tracks.represents, dropped⟩
  · intro observer config index w program valid new
    have positive : 0 < config.depth := by
      by_contra hzero
      rw [CacheConfig.validate, if_pos (Nat.eq_zero_of_not_pos hzero)] at valid
      cases valid
    have start : Run.Keeps index (PlanCache.Fits config.depth) w :=
      ⟨_, PlanCache.fits_ofValid config, new⟩
    exact (program.ensures_within (PlanCache.lasting_fits positive) observer index w start).1

/-- Two of three entries are dropped, and one of their slots is recycled; nested requests of three classes
never take a third slot. -/
theorem recycled_arena_represents :
    let operations : List (Operation Nat) := [.pushFront 10, .pushFront 20, .pushFront 30,
      .moveToFront 1, .moveToFront 7, .truncate 1, .pushFront 40]
    let arena := Operation.performAll Operation.onArena Recency.empty operations
    let plain : Numbered Nat := ⟨[(2, 40), (1, 20)], [0]⟩
    arena.1.Represents plain ∧ arena.2 = [0, 0, 0, 0, 0, 2, 0] ∧
      (Sample.steps.map fun step => step.after.plans.slots.size) =
        [0, 0, 1, 1, 2, 2, 2, 2, 2, 2, 2, 2, 0] ∧
      ∀ step ∈ Sample.steps, step.before.Fits 2 ∧ step.after.Fits 2 := by
  intro operations arena plain
  rcases arena_represents_list.1 operations with ⟨represents, dropped⟩
  refine ⟨represents, dropped, by decide +kernel, ?_⟩
  exact arena_represents_list.2 .ambient ⟨true, 2⟩ 0 Sample.world Sample.nested rfl rfl

end Recency

end QueryPlan
