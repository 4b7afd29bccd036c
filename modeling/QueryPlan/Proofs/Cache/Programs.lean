import QueryPlan.Proofs.Cache.Recent
import QueryPlan.Proofs.Session.Ensures

/-!
# Programs — computations that use a cache

A program looks plans up, clears the cache and fetches plans, and what it does next may depend on all
the answers that it got.  A plan is fetched with a compile function that is a program again, so requests
may be nested in one another to any depth, for the same keys or for others.

Running a program yields the steps that it takes on the cache, in order and with the cache before and
after each of them.  Whatever the program is, these steps form a `Trace`: each of them is one of the
things that a cache can do, and starts from the cache that the one before it left.  A fetch that misses
takes two steps, and those of its compile function come between them.
-/

namespace QueryPlan

/-- A computation that uses a cache. -/
inductive Program where
  | finish (result : Except CompileError Plan)
  | peek (key : PlanKey) (next : Option Plan → Program)
  | clear (next : Program)
  /-- Fetch a plan; the compile function runs if there is none. -/
  | fetch (key : PlanKey) (compilation : Program) (next : Except CompileError Plan → Program)

/-- What happens to a cache in one step. -/
inductive CacheAction where
  /-- The first look of a request found nothing. -/
  | missed (key : PlanKey)
  /-- A request was answered, after its compile function had returned if it had to run. -/
  | answered (key : PlanKey) (compiled : Option (Except CompileError Plan))
      (answer : Except CompileError Plan)
  | peeked (key : PlanKey) (found : Option Plan)
  | cleared

/-- One step, from the cache that it starts with to the one that it leaves. -/
structure CacheStep where
  before : PlanCache
  action : CacheAction
  after : PlanCache

/-- Run a program on the cache at an index; returns its result and the steps that it took. -/
def Program.run (observer : Observer) (index : Nat) :
    Program → Run (Except CompileError Plan × List CacheStep)
  | finish result => return (result, [])
  | peek key next => do
      let cache ← Run.cache index
      let found := cache.peek? key.schema key.template
      let (result, steps) ← (next found).run observer index
      return (result, ⟨cache, .peeked key found, cache⟩ :: steps)
  | clear next => do
      let before ← Run.cache index
      Run.setCache index before.clear
      let after ← Run.cache index
      let (result, steps) ← next.run observer index
      return (result, ⟨before, .cleared, after⟩ :: steps)
  | fetch key compilation next => do
      let before ← Run.cache index
      let nested : Run (Except CompileError Plan ×
          List CacheStep × Except CompileError Plan × PlanCache) := do
        let missed ← Run.cache index
        let (result, steps) ← compilation.run observer index
        let reached ← Run.cache index
        return (result, ⟨before, .missed key, missed⟩ :: steps, result, reached)
      let (answer, compiled) ← Run.getOrCompile observer index key.schema key.template nested
      let after ← Run.cache index
      let fetched :=
        match compiled with
        | none => [⟨before, .answered key none answer, after⟩]
        | some (steps, result, reached) =>
            steps ++ [⟨reached, .answered key (some result) answer, after⟩]
      let (result, steps) ← (next answer).run observer index
      return (result, fetched ++ steps)

/-! ## What a cache can do -/

/-- The steps that a cache can make. -/
inductive PlanCache.Performs : PlanCache → CacheAction → PlanCache → Prop
  | hit {cache : PlanCache} {key : PlanKey} {plan : Plan}
      (found : (cache.probe key.schema key.template).1 = .hit plan) :
      Performs cache (.answered key none (.ok plan)) (cache.probe key.schema key.template).2.1
  | miss {cache : PlanCache} {key : PlanKey}
      (found : (cache.probe key.schema key.template).1 = .miss) :
      Performs cache (.missed key) (cache.probe key.schema key.template).2.1
  | failed (cache : PlanCache) (key : PlanKey) (e : CompileError) :
      Performs cache (.answered key (some (.error e)) (.error e)) cache
  | settled (cache : PlanCache) (key : PlanKey) (compiled : Plan) :
      Performs cache
        (.answered key (some (.ok compiled)) (.ok (cache.settle key.schema key.template compiled).1))
        (cache.settle key.schema key.template compiled).2.1
  | peeked (cache : PlanCache) (key : PlanKey) :
      Performs cache (.peeked key (cache.peek? key.schema key.template)) cache
  | cleared (cache : PlanCache) : Performs cache .cleared cache.clear

/-- Steps that follow one another. -/
inductive Trace : PlanCache → List CacheStep → PlanCache → Prop
  | nil (cache : PlanCache) : Trace cache [] cache
  | cons {before after final : PlanCache} {action : CacheAction} {steps : List CacheStep}
      (step : before.Performs action after) (rest : Trace after steps final) :
      Trace before (⟨before, action, after⟩ :: steps) final

theorem PlanCache.Performs.enabled {before after : PlanCache} {action : CacheAction}
    (h : before.Performs action after) : after.enabled = before.enabled := by
  cases h with
  | hit _ | miss _ =>
      unfold PlanCache.probe
      split
      · rfl
      · split <;> rfl
  | settled =>
      unfold PlanCache.settle
      split <;> rfl
  | failed | peeked | cleared => rfl

namespace Trace

variable {cache reached final : PlanCache} {steps steps' : List CacheStep}

theorem single {before after : PlanCache} {action : CacheAction}
    (step : before.Performs action after) : Trace before [⟨before, action, after⟩] after :=
  .cons step (.nil after)

theorem append (h : Trace cache steps reached) (h' : Trace reached steps' final) :
    Trace cache (steps ++ steps') final := by
  induction h with
  | nil => exact h'
  | cons step rest ih => exact .cons step (ih h')

theorem enabled (h : Trace cache steps final) : final.enabled = cache.enabled := by
  induction h with
  | nil => rfl
  | cons step rest ih => exact ih.trans step.enabled

end Trace

/-! ## Running programs -/

namespace Run

variable {α : Type} {index : Nat} {cache : PlanCache} {Q : α → World → Prop}

def Holds (index : Nat) (cache : PlanCache) (w : World) : Prop :=
  w.caches[index]? = some cache

/-- Wherever a cache is known to be at an index, reading yields that cache. -/
theorem Ensures.read_of {P : World → Prop} {next : PlanCache → Run α}
    (holds : ∀ w, P w → Holds index cache w) (h : Ensures P (next cache) Q) :
    Ensures P (Run.cache index >>= next) Q := by
  intro w hw
  have hread : w.caches.getD index .usual = cache := by
    rw [List.getD_eq_getElem?_getD, holds w hw]
    rfl
  have hnext := h w hw
  rw [← hread] at hnext
  exact hnext

theorem Ensures.read {next : PlanCache → Run α} (h : Ensures (Holds index cache) (next cache) Q) :
    Ensures (Holds index cache) (Run.cache index >>= next) Q :=
  Ensures.read_of (fun _ hw => hw) h

theorem Ensures.write {cache' : PlanCache} {next : Unit → Run α}
    (h : Ensures (Holds index cache') (next ()) Q) :
    Ensures (Holds index cache) (setCache index cache' >>= next) Q := by
  intro w hw
  have hlt : index < w.caches.length := (List.getElem?_eq_some_iff.1 hw).1
  exact h { w with caches := w.caches.set index cache' } (List.getElem?_set_self hlt)

theorem holds_report (observer : Observer) (event : Event) :
    Ensures (Holds index cache) (report observer event) fun _ => Holds index cache :=
  Ensures.report (fun _ hw => hw) (fun _ hw => hw)

/-- Reporting events has no effect on caches. -/
theorem holds_reportAll (observer : Observer) (events : List Event) :
    Ensures (Holds index cache) (reportAll observer events) fun _ => Holds index cache :=
  Ensures.reportAll (holds_report observer) events

/-- A request is answered by the first phase, or by its compile function and the second phase.  What the
compile function establishes about the cache it is given and the one that it leaves is `Compiles`. -/
theorem holds_getOrCompile {β : Type} (observer : Observer) {key : PlanKey}
    {compilation : Run (Except CompileError Plan × β)}
    (Compiles : PlanCache → Except CompileError Plan × β → PlanCache → Prop)
    (henabled : cache.enabled = true)
    (hcompilation : ∀ missed, missed.enabled = true → Ensures (Holds index missed) compilation
      fun compiled w => ∃ reached, Compiles missed compiled reached ∧ Holds index reached w) :
    Ensures (Holds index cache) (getOrCompile observer index key.schema key.template compilation)
      fun fetched w => ∃ after,
        ((fetched.2 = none ∧ cache.Performs (.answered key none fetched.1) after) ∨
          ∃ missed compiled reached, cache.Performs (.missed key) missed ∧
            Compiles missed compiled reached ∧ fetched.2 = some compiled.2 ∧
            reached.Performs (.answered key (some compiled.1) fetched.1) after) ∧
        Holds index after w := by
  unfold getOrCompile
  refine Ensures.read ?_
  have hprobe := PlanCache.probe_of_enabled henabled key
  cases hfind : cache.find? key.schema key.template with
  | some hit =>
      rcases hit with ⟨slot, plan⟩
      rw [hfind] at hprobe
      have step := PlanCache.Performs.hit (by rw [hprobe])
      rw [hprobe] at step ⊢
      refine Ensures.write (Ensures.bind (holds_reportAll _ _) fun _ => ?_)
      exact Ensures.pure fun w hw => ⟨_, .inl ⟨rfl, step⟩, hw⟩
  | none =>
      rw [hfind] at hprobe
      have step := PlanCache.Performs.miss (by rw [hprobe])
      rw [hprobe] at step ⊢
      refine Ensures.write (Ensures.bind (holds_reportAll _ _) fun _ => ?_)
      -- From here on the cache is whatever the compile function leaves.
      refine Ensures.bind (hcompilation _ henabled) fun compiled => ?_
      refine Ensures.forSome fun reached => Ensures.given fun hcompiled => ?_
      rcases compiled with ⟨result, extra⟩
      cases result with
      | error e =>
          have failed := PlanCache.Performs.failed reached key e
          exact Ensures.pure fun w hw => ⟨_, .inr ⟨_, _, _, step, hcompiled, rfl, failed⟩, hw⟩
      | ok fresh =>
          have settled := PlanCache.Performs.settled reached key fresh
          refine Ensures.read (Ensures.write (Ensures.bind (holds_reportAll _ _) fun _ => ?_))
          exact Ensures.pure fun w hw => ⟨_, .inr ⟨_, _, _, step, hcompiled, rfl, settled⟩, hw⟩

end Run

namespace Program

open Run (Ensures Holds)

/-- A program whose steps so far form a trace goes on from the cache that they left. -/
theorem ensures_append {index : Nat} {cache reached : PlanCache} {steps : List CacheStep}
    {m : Run (Except CompileError Plan × List CacheStep)} (h : Trace cache steps reached)
    (hm : Ensures (Holds index reached) m fun ran w =>
      ∃ final, Trace reached ran.2 final ∧ Holds index final w) :
    Ensures (Holds index reached)
      (do
        let (result, steps') ← m
        return (result, steps ++ steps'))
      fun ran w => ∃ final, Trace cache ran.2 final ∧ Holds index final w := by
  refine Ensures.bind hm fun ran => ?_
  refine Ensures.forSome fun final => Ensures.given fun htrace => ?_
  exact Ensures.pure fun w hw => ⟨final, h.append htrace, hw⟩

/-- The steps of a program form a trace of the cache that it runs on. -/
theorem ensures_trace (observer : Observer) (index : Nat) (program : Program)
    {cache : PlanCache} (henabled : cache.enabled = true) :
    Ensures (Holds index cache) (program.run observer index) fun ran w =>
      ∃ final, Trace cache ran.2 final ∧ Holds index final w := by
  induction program generalizing cache with
  | finish result => exact Ensures.pure fun w hw => ⟨cache, .nil cache, hw⟩
  | peek key next ih =>
      exact Ensures.read (ensures_append (.single (.peeked cache key)) (ih _ henabled))
  | clear next ih =>
      have step := PlanCache.Performs.cleared cache
      exact Ensures.read (Ensures.write (Ensures.read (ensures_append (.single step) (ih henabled))))
  | fetch key compilation next ihCompilation ihNext =>
      refine Ensures.read ?_
      -- A compile function records the miss that it is run for, and then its own steps.
      let Compiles (missed : PlanCache)
          (compiled : Except CompileError Plan × List CacheStep × Except CompileError Plan × PlanCache)
          (reached : PlanCache) : Prop :=
        ∃ steps, compiled.2 = (⟨cache, .missed key, missed⟩ :: steps, compiled.1, reached) ∧
          Trace missed steps reached
      refine Ensures.bind (Run.holds_getOrCompile observer Compiles henabled ?_) fun fetched => ?_
      · intro missed hmissed
        refine Ensures.read (Ensures.bind (ihCompilation hmissed) fun ran => ?_)
        refine Ensures.forSome fun reached => Ensures.given fun htrace => Ensures.read ?_
        exact Ensures.pure fun w hw => ⟨reached, ⟨ran.2, rfl, htrace⟩, hw⟩
      · refine Ensures.forSome fun after => Ensures.given fun hfetched => Ensures.read ?_
        rcases fetched with ⟨answer, extra⟩
        rcases hfetched with ⟨rfl, step⟩ | ⟨missed, compiled, reached, miss, hcompiled, rfl, step⟩
        · have henabled : after.enabled = true := step.enabled.trans henabled
          exact ensures_append (.single step) (ihNext _ henabled)
        · rcases hcompiled with ⟨steps, hsteps, hnested⟩
          have hfetch := Trace.cons miss (hnested.append (.single step))
          have henabled : after.enabled = true := hfetch.enabled.trans henabled
          rw [hsteps]
          exact ensures_append hfetch (ihNext _ henabled)

end Program

end QueryPlan
