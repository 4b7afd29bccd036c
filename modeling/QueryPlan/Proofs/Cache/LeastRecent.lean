import QueryPlan.Proofs.Cache.Programs
import QueryPlan.Proofs.Compile.Slots

/-!
# LeastRecent — what a cache holds in every run

A program may nest requests in compile functions, so between the two phases of a request anything can
happen to the cache: the same class may have been answered, classes may have been dropped for others,
and everything may have been cleared.  None of this matters for what the cache holds, which depends only
on the keys that were answered since it was last cleared, in the order of the answers.

`Recalls` is the invariant.  Each step that a cache can make keeps it for the history that the step
leaves, provided that compile functions return plans for what they were asked for; so it holds along
every trace, and with it what the theorems say about each step.
-/

namespace QueryPlan

/-! ## Steps and histories -/

namespace CacheAction

/-- A compile function that returned a plan was asked for a plan of that class. -/
def Faithful : CacheAction → Prop
  | answered key (some (.ok compiled)) _ =>
      compiled.schema = key.schema ∧ compiled.template.alike key.template = true
  | _ => True

instance (action : CacheAction) : Decidable action.Faithful :=
  match action with
  | answered _ (some (.ok _)) _ => inferInstanceAs (Decidable (_ ∧ _))
  | answered _ (some (.error _)) _ | answered _ none _ | missed _ | peeked _ _ | cleared =>
      isTrue trivial

/-- The keys that were answered up to and including an action, the latest first. -/
def record (history : List PlanKey) : CacheAction → List PlanKey
  | answered key _ (.ok _) => key :: history
  | cleared => []
  | _ => history

end CacheAction

/-- The keys that were answered since the cache was last cleared, the latest first. -/
def historyOf (steps : List CacheStep) : List PlanKey :=
  steps.foldl (fun history step => step.action.record history) []

/-- The class of a key was answered, and fewer than `depth` other classes were answered since. -/
def Recent (depth : Nat) (history : List PlanKey) (key : PlanKey) : Prop :=
  ∃ newer k older, history = newer ++ k :: older ∧ (k == key) = true ∧
    (∀ l ∈ newer, (l == key) = false) ∧ newer.eraseDups.length < depth

namespace CacheStep

/-- What is safe about a step: the cache stays within its depth, with plans of distinct classes; an
answer is a plan for what was asked for, and the most recently used one; and if such a plan is cached by
the time that a compile function returns another one, the cached plan is the answer and the cached plans
stay the same. -/
structure Safe (depth : Nat) (step : CacheStep) : Prop where
  bounded : step.after.size = step.after.toList.length ∧ step.after.size ≤ depth
  distinct : step.after.toList.Pairwise fun p q =>
    ¬(p.schema = q.schema ∧ p.template.alike q.template = true)
  answer : ∀ key compiled plan, step.action = .answered key compiled (.ok plan) →
    plan.schema = key.schema ∧ plan.template.alike key.template = true ∧
      step.after.toList.head? = some plan
  race : ∀ key fresh answer cached, step.action = .answered key (some (.ok fresh)) answer →
    cached ∈ step.before.toList → cached.schema = key.schema →
      cached.template.alike key.template = true →
        answer = .ok cached ∧ step.after.toList.Perm step.before.toList

/-- What the history says about a step: the cache holds one plan for each of the classes that were
answered last; a request is answered by the first look if its class is recent and misses if it is not;
and what neither answers nor clears leaves the plans as they are. -/
structure Exact (depth : Nat) (history : List PlanKey) (step : CacheStep) : Prop where
  plans : List.Forall₂
    (fun plan key => plan.schema = key.schema ∧ plan.template.alike key.template = true)
    step.after.toList ((step.action.record history).eraseDups.take depth)
  hit : ∀ key answer, step.action = .answered key none answer → Recent depth history key
  miss : ∀ key, step.action = .missed key → ¬Recent depth history key
  kept : (∀ key compiled plan, step.action ≠ .answered key compiled (.ok plan)) →
    step.action ≠ .cleared → step.after.toList = step.before.toList

end CacheStep

/-! ## One step -/

namespace PlanCache.Recalls

variable {depth : Nat} {history : List PlanKey} {before after : PlanCache} {action : CacheAction}

theorem recent_iff (h : Recalls depth history before) (key : PlanKey) :
    (∃ cached ∈ before.toList, (cached.key == key) = true) ↔ Recent depth history key :=
  (h.exists_mem_iff key).trans exists_mem_take_eraseDups

/-- Every step leaves a cache that recalls what was answered. -/
theorem performs (h : Recalls depth history before) (step : before.Performs action after)
    (faithful : action.Faithful) : Recalls depth (action.record history) after := by
  cases step with
  | hit found => exact (h.probe_hit found).1
  | miss found => exact (h.probe_miss found).1
  | failed | peeked => exact h
  | settled => exact (h.settle (PlanKey.beq_iff.2 faithful)).1
  | cleared => exact h.clear

theorem safe_of_performs (h : Recalls depth history before) (step : before.Performs action after)
    (faithful : action.Faithful) : CacheStep.Safe depth ⟨before, action, after⟩ := by
  have hafter := h.performs step faithful
  rcases hafter.size with ⟨hsize, hbound⟩
  -- Size and classes follow from what is recalled afterwards; answers come from one phase or the other.
  constructor
  case bounded => exact ⟨hsize, hsize ▸ hbound⟩
  case distinct =>
    apply hafter.distinct.imp
    intro p q hapart hsame
    have heq : (p.key == q.key) = true := PlanKey.beq_iff.2 hsame
    rw [BEq.comm, hapart] at heq
    cases heq
  case answer =>
    intro key compiled plan haction
    cases step with
    | hit found =>
        cases haction
        rcases h.probe_hit found with ⟨-, hserves, hhead, -⟩
        rcases PlanKey.beq_iff.1 hserves with ⟨hschema, halike⟩
        exact ⟨hschema, halike, hhead⟩
    | settled =>
        cases haction
        rcases h.settle (PlanKey.beq_iff.2 faithful) with ⟨-, hserves, hhead, -⟩
        rcases PlanKey.beq_iff.1 hserves with ⟨hschema, halike⟩
        exact ⟨hschema, halike, hhead⟩
    | miss | failed | peeked | cleared => cases haction
  -- A compile function has returned a plan, so this is the second phase.
  case race =>
    intro key fresh answer cached haction hcached hschema halike
    cases step with
    | settled =>
        cases haction
        rcases h.settle (PlanKey.beq_iff.2 faithful) with ⟨-, -, -, hrace⟩
        rcases hrace cached hcached (PlanKey.beq_iff.2 ⟨hschema, halike⟩) with ⟨heq, hperm⟩
        exact ⟨congrArg Except.ok heq, hperm⟩
    | hit | miss | failed | peeked | cleared => cases haction

theorem exact_of_performs (h : Recalls depth history before) (step : before.Performs action after)
    (faithful : action.Faithful) : CacheStep.Exact depth history ⟨before, action, after⟩ := by
  have hafter := h.performs step faithful
  -- A first look finds a plan exactly if the class is recalled, which is to say that it is recent.
  constructor
  case plans => exact hafter.plans.imp fun plan key hserves => PlanKey.beq_iff.1 hserves
  case hit =>
    intro key answer haction
    cases step with
    | hit found =>
        cases haction
        exact (h.recent_iff _).1 (h.probe_hit found).2.2.2
    | miss | failed | settled | peeked | cleared => cases haction
  case miss =>
    intro key haction hrecent
    cases step with
    | miss found =>
        cases haction
        exact (h.probe_miss found).2.2 ((h.recent_iff _).2 hrecent)
    | hit | failed | settled | peeked | cleared => cases haction
  case kept =>
    intro hanswered hcleared
    cases step with
    | miss found => exact (h.probe_miss found).2.1
    | failed | peeked => rfl
    | hit | settled => exact absurd rfl (hanswered _ _ _)
    | cleared => exact absurd rfl hcleared

end PlanCache.Recalls

/-! ## Every run -/

/-- Along a trace, every step is one that a cache can make, and starts from a cache that recalls what
was answered before. -/
theorem Trace.recalls {depth : Nat} {cache final : PlanCache} {steps : List CacheStep}
    (htrace : Trace cache steps final) {history : List PlanKey} (h : cache.Recalls depth history)
    (faithful : ∀ step ∈ steps, step.action.Faithful) {before rest : List CacheStep}
    {step : CacheStep} (hsplit : steps = before ++ step :: rest) :
    step.before.Recalls depth
        (before.foldl (fun history step => step.action.record history) history) ∧
      step.before.Performs step.action step.after := by
  induction htrace generalizing history before with
  | nil => simp at hsplit
  | cons performs htrace ih =>
      rw [List.forall_mem_cons] at faithful
      cases before with
      | nil =>
          obtain ⟨rfl, -⟩ := List.cons.inj hsplit
          exact ⟨h, performs⟩
      | cons first before =>
          obtain ⟨rfl, hrest⟩ := List.cons.inj hsplit
          exact ih (h.performs performs faithful.1) faithful.2 hrest

namespace Program

variable {depth index : Nat} {w : World}

/-- In a run on a new cache, every step is one that the cache can make, and starts from a cache that
recalls what was answered before. -/
theorem recalls_of_run (observer : Observer) (positive : 0 < depth)
    (hw : w.caches[index]? = some (.ofValid ⟨true, depth⟩)) (program : Program)
    (faithful : ∀ step ∈ ((program.run observer index).run w).1.2, step.action.Faithful)
    {before rest : List CacheStep} {step : CacheStep}
    (hsplit : ((program.run observer index).run w).1.2 = before ++ step :: rest) :
    step.before.Recalls depth (historyOf before) ∧
      step.before.Performs step.action step.after ∧ step.action.Faithful := by
  rcases program.ensures_trace observer index rfl w hw with ⟨final, htrace, -⟩
  rcases htrace.recalls (.ofValid positive) faithful hsplit with ⟨hrecalls, hperforms⟩
  exact ⟨hrecalls, hperforms, faithful step (by simp [hsplit])⟩

end Program

/-! ### Nested requests -/

namespace Sample

open Compile.Sample (namesakes)

/-- Compile the template of a key. -/
def compiled (serial : Nat) (key : PlanKey) : Program :=
  .finish (Plan.compile serial Compile.Rule.all ⟨key.schema, "main", none, [], false⟩ key.template)

/-- A request for namesakes whose compile function requests them with another age, and under another
schema; then a third schema, first in vain; and then the first class again. -/
def nested : Program :=
  let thirty : PlanKey := ⟨0, namesakes 30 (.empty 0)⟩
  let forty : PlanKey := ⟨0, namesakes 40 (.empty 1)⟩
  let second : PlanKey := ⟨1, namesakes 30 (.empty 0)⟩
  let third : PlanKey := ⟨2, namesakes 30 (.empty 0)⟩
  let during : Program :=
    .fetch forty (compiled 0 forty) fun _ =>
      .fetch second (compiled 1 second) fun _ => compiled 2 thirty
  .fetch thirty during fun _ =>
    .fetch third (.finish (.error (.detachedLink .bool))) fun _ =>
      .fetch third (compiled 3 third) fun _ =>
        .peek second fun _ =>
          .fetch forty (compiled 4 forty) fun answer => .clear (.finish answer)

def world : World :=
  .start [.ofValid ⟨true, 2⟩] [] [] true fun _ => 250

def steps : List CacheStep :=
  ((nested.run .ambient 0).run world).1.2

end Sample

namespace Program

variable {depth index : Nat} {w : World}

/-- Whatever a program does with a cache, every step that it takes is safe. -/
theorem run_safe (observer : Observer) (positive : 0 < depth)
    (hw : w.caches[index]? = some (.ofValid ⟨true, depth⟩)) (program : Program)
    (faithful : ∀ step ∈ ((program.run observer index).run w).1.2, step.action.Faithful) :
    ∀ step ∈ ((program.run observer index).run w).1.2, step.Safe depth := by
  intro step hstep
  rcases List.append_of_mem hstep with ⟨before, rest, hsplit⟩
  rcases recalls_of_run observer positive hw program faithful hsplit with
    ⟨hrecalls, hperforms, hfaithful⟩
  exact hrecalls.safe_of_performs hperforms hfaithful

/-- The request that another one was answered for meanwhile gets its plan, and the plan compiled for it is
not stored. -/
theorem nested_run_safe :
    (∀ step ∈ Sample.steps, step.action.Faithful) ∧
      (Sample.steps.map fun step => step.after.toList.map (·.serial)) =
        [[], [], [0], [0], [1, 0], [0, 1], [0, 1], [0, 1], [0, 1], [3, 0], [3, 0], [0, 3], []] ∧
      ∀ step ∈ Sample.steps, step.Safe 2 := by
  have faithful : ∀ step ∈ Sample.steps, step.action.Faithful := by decide +kernel
  exact ⟨faithful, by decide +kernel, run_safe .ambient (by decide) rfl Sample.nested faithful⟩

/-- Whatever a program does with a cache, every step that it takes is what the keys answered before it
say: the cache is exactly the least recently used one over classes of keys. -/
theorem run_exact (observer : Observer) (positive : 0 < depth)
    (hw : w.caches[index]? = some (.ofValid ⟨true, depth⟩)) (program : Program)
    (faithful : ∀ step ∈ ((program.run observer index).run w).1.2, step.action.Faithful) :
    ∀ before step rest, ((program.run observer index).run w).1.2 = before ++ step :: rest →
      step.Exact depth (historyOf before) := by
  intro before step rest hsplit
  rcases recalls_of_run observer positive hw program faithful hsplit with
    ⟨hrecalls, hperforms, hfaithful⟩
  exact hrecalls.exact_of_performs hperforms hfaithful

/-- After the first class was answered twice, and another schema in between, a third one drops that. -/
theorem nested_run_exact :
    (∀ step ∈ Sample.steps, step.action.Faithful) ∧
      (historyOf (Sample.steps.take 10)).map (·.schema) = [2, 0, 1, 0] ∧
      ∀ before step rest, Sample.steps = before ++ step :: rest →
        step.Exact 2 (historyOf before) := by
  have faithful : ∀ step ∈ Sample.steps, step.action.Faithful := by decide +kernel
  exact ⟨faithful, by decide +kernel, run_exact .ambient (by decide) rfl Sample.nested faithful⟩

end Program

end QueryPlan
