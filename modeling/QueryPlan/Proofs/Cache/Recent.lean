import Mathlib.Data.List.Pairwise
import QueryPlan.Cache.Plans
import QueryPlan.Proofs.Cache.Links
import QueryPlan.Proofs.Expr.Equivalence

/-!
# Recent — a cache recalls the most recently answered classes of requests

Requests are of one class if a plan for one of them serves the other: their schemas are equal and their
templates alike.  `Recalls depth history cache` says that a cache holds one plan for each of the classes
that were answered last, most recent first, as many as the depth allows.  The history is a list of keys,
the latest first, in which a class may occur any number of times; `List.eraseDups` keeps the latest
occurrence of each class.

Answering a request puts its key in front of the history.  In the list of classes this moves a class to
the front, or adds it there and drops the last one, which is what the two phases of a request do to the
plans.
-/

namespace QueryPlan

/-! ## Lists -/

section Lists

variable {α : Type} {keep : α → Bool} {l : List α} {count : Nat}

/-- Leaving out elements further down does not change the first few. -/
theorem take_filter_of_forall (h : ∀ a ∈ l.take count, keep a = true) :
    (l.filter keep).take count = l.take count := by
  induction l generalizing count with
  | nil => simp
  | cons a rest ih =>
      cases count with
      | zero => simp
      | succ count =>
          rw [List.take_succ_cons, List.forall_mem_cons] at h
          rw [List.filter_cons_of_pos h.1, List.take_succ_cons, List.take_succ_cons, ih h.2]

/-- If one of the first few is the only element that is left out, then the others remain. -/
theorem take_filter_of_exists (unique : l.Pairwise fun a b => keep a = true ∨ keep b = true)
    (h : ∃ a ∈ l.take (count + 1), keep a = false) :
    (l.filter keep).take count = (l.take (count + 1)).filter keep := by
  induction l generalizing count with
  | nil => simp
  | cons a rest ih =>
      rcases List.pairwise_cons.1 unique with ⟨hothers, hunique⟩
      rw [List.take_succ_cons] at h ⊢
      cases hkeep : keep a with
      | false =>
          have hall : ∀ b ∈ rest, keep b = true :=
            fun b hb => (hothers b hb).resolve_left (by simp [hkeep])
          have hnot : ¬keep a = true := by simp [hkeep]
          rw [List.filter_cons_of_neg hnot, List.filter_cons_of_neg hnot, List.filter_eq_self.2 hall,
            List.filter_eq_self.2 fun b hb => hall b (List.mem_of_mem_take hb)]
      | true =>
          rcases h with ⟨b, hb, hleft⟩
          rcases List.mem_cons.1 hb with rfl | hb
          · simp [hkeep] at hleft
          · cases count with
            | zero => simp at hb
            | succ count =>
                rw [List.filter_cons_of_pos hkeep, List.filter_cons_of_pos hkeep,
                  List.take_succ_cons, ih hunique ⟨b, hb, hleft⟩]

/-- Related lists have elements with related properties, or both have none. -/
theorem exists_mem_iff_of_forall₂ {β : Type} {R : α → β → Prop} {P : α → Prop} {Q : β → Prop}
    {as : List α} {bs : List β} (h : List.Forall₂ R as bs) (iff : ∀ a b, R a b → (P a ↔ Q b)) :
    (∃ a ∈ as, P a) ↔ ∃ b ∈ bs, Q b := by
  induction h with
  | nil => simp
  | cons hab _ ih => simp [iff _ _ hab, ih]

end Lists

/-! ## Classes of a history -/

section Classes

variable {α : Type} [BEq α]

/-- Leaving out whole classes commutes with keeping one element of each. -/
theorem eraseDups_filter {keep : α → Bool} (respects : ∀ a b, a == b → keep a = keep b)
    (l : List α) : (l.filter keep).eraseDups = l.eraseDups.filter keep := by
  match l with
  | [] => rfl
  | a :: rest =>
      have ih := eraseDups_filter respects (rest.filter fun b => !b == a)
      rw [List.filter_filter] at ih
      rw [List.eraseDups_cons]
      cases hkeep : keep a with
      | true =>
          have hcomm : (fun b => keep b && !b == a) = fun b => (!b == a) && keep b :=
            funext fun b => Bool.and_comm _ _
          rw [List.filter_cons_of_pos hkeep, List.filter_cons_of_pos hkeep, List.eraseDups_cons,
            List.filter_filter, ← ih, hcomm]
      | false =>
          -- The class of `a` is left out anyway.
          have hsame : (fun b => keep b && !b == a) = keep := by
            funext b
            cases heq : b == a with
            | true => simp [respects b a heq, hkeep]
            | false => simp
          have hnot : ¬keep a = true := by simp [hkeep]
          rw [List.filter_cons_of_neg hnot, List.filter_cons_of_neg hnot, ← ih, hsame]
termination_by l.length
decreasing_by exact Nat.lt_succ_of_le (List.length_filter_le _ _)

variable [EquivBEq α]

/-- A new element comes first, and the others of its class disappear. -/
theorem eraseDups_cons_filter (a : α) (l : List α) :
    (a :: l).eraseDups = a :: l.eraseDups.filter fun b => !b == a := by
  rw [List.eraseDups_cons, eraseDups_filter]
  intro b c heq
  rw [BEq.congr_left heq]

theorem eraseDups_sublist (l : List α) : l.eraseDups.Sublist l := by
  induction l with
  | nil => exact List.Sublist.refl _
  | cons a rest ih =>
      rw [eraseDups_cons_filter]
      exact (List.filter_sublist.trans ih).cons_cons a

theorem eraseDups_pairwise (l : List α) : l.eraseDups.Pairwise fun a b => (b == a) = false := by
  induction l with
  | nil => exact List.Pairwise.nil
  | cons a rest ih =>
      rw [eraseDups_cons_filter]
      refine List.Pairwise.cons ?_ (ih.filter _)
      intro b hb
      simpa using (List.mem_filter.1 hb).2

/-- The latest element of a class is preceded by one element of each class that is more recent. -/
theorem eraseDups_append_cons {newer : List α} (older : List α) {a : α}
    (h : ∀ b ∈ newer, (b == a) = false) :
    ∃ rest, (newer ++ a :: older).eraseDups = newer.eraseDups ++ a :: rest := by
  induction newer with
  | nil => exact ⟨_, eraseDups_cons_filter a older⟩
  | cons b newer ih =>
      rw [List.forall_mem_cons] at h
      rcases ih h.2 with ⟨rest, hrest⟩
      have hapart : (a == b) = false := BEq.comm.trans h.1
      have hkept : (a :: rest).filter (fun c => !c == b) = a :: rest.filter fun c => !c == b :=
        List.filter_cons_of_pos (by simp [hapart])
      refine ⟨rest.filter fun c => !c == b, ?_⟩
      rw [List.cons_append, eraseDups_cons_filter, hrest, eraseDups_cons_filter, List.filter_append,
        hkept, List.cons_append]

/-- A class is among the first few if and only if it occurs, with fewer than that many other classes
after its latest occurrence. -/
theorem exists_mem_take_eraseDups {l : List α} {a : α} {count : Nat} :
    (∃ b ∈ l.eraseDups.take count, b == a) ↔
      ∃ newer b older, l = newer ++ b :: older ∧ b == a ∧ (∀ c ∈ newer, (c == a) = false) ∧
        newer.eraseDups.length < count := by
  constructor
  · rintro ⟨b, hb, heq⟩
    have hmem : b ∈ l := (eraseDups_sublist l).subset (List.mem_of_mem_take hb)
    -- The latest occurrence of the class is the first one in the history.
    have hfound : (l.find? (· == a)).isSome = true := List.find?_isSome.2 ⟨b, hmem, heq⟩
    rcases Option.isSome_iff_exists.1 hfound with ⟨c, hc⟩
    rcases List.find?_eq_some_iff_append.1 hc with ⟨hca, newer, older, rfl, hnewer⟩
    have hnone : ∀ x ∈ newer, (x == a) = false := by simpa using hnewer
    refine ⟨newer, c, older, rfl, hca, hnone, ?_⟩
    have hapart : ∀ x ∈ newer, (x == c) = false := by
      intro x hx
      rw [BEq.congr_right hca]
      exact hnone x hx
    rcases eraseDups_append_cons older hapart with ⟨rest, hrest⟩
    by_contra hle
    rw [hrest, List.take_append_of_le_length (Nat.le_of_not_lt hle)] at hb
    have hnewer := (eraseDups_sublist newer).subset (List.mem_of_mem_take hb)
    simp [hnone b hnewer] at heq
  · rintro ⟨newer, b, older, rfl, heq, hnewer, hlt⟩
    have hapart : ∀ x ∈ newer, (x == b) = false := by
      intro x hx
      rw [BEq.congr_right heq]
      exact hnewer x hx
    rcases eraseDups_append_cons older hapart with ⟨rest, hrest⟩
    refine ⟨b, ?_, heq⟩
    rw [hrest, List.mem_take_iff_getElem]
    exact ⟨newer.eraseDups.length, by simp; omega, by simp⟩

/-- If a class is among the first few already, then it moves to the front of them. -/
theorem take_eraseDups_cons_of_exists {a : α} {l : List α} {count : Nat}
    (h : ∃ b ∈ l.eraseDups.take (count + 1), b == a) :
    (a :: l).eraseDups.take (count + 1) =
      a :: (l.eraseDups.take (count + 1)).filter fun b => !b == a := by
  -- Two classes that are both left out would be the class of `a`, and so the same one.
  have unique : l.eraseDups.Pairwise fun b c => (!b == a) = true ∨ (!c == a) = true := by
    apply (eraseDups_pairwise l).imp
    intro b c hapart
    by_contra hboth
    simp only [Bool.not_eq_true', not_or, Bool.not_eq_false] at hboth
    rw [BEq.congr_left hboth.2, BEq.comm, hboth.1] at hapart
    cases hapart
  rw [eraseDups_cons_filter, List.take_succ_cons, take_filter_of_exists unique (by simpa using h)]

/-- Otherwise it is added in front of them, and the last one makes room. -/
theorem take_eraseDups_cons_of_forall {a : α} {l : List α} {count : Nat}
    (h : ∀ b ∈ l.eraseDups.take count, (b == a) = false) :
    (a :: l).eraseDups.take (count + 1) = a :: l.eraseDups.take count := by
  have hkept : ∀ b ∈ l.eraseDups.take count, (!b == a) = true := by
    intro b hb
    rw [h b hb, Bool.not_false]
  rw [eraseDups_cons_filter, List.take_succ_cons, take_filter_of_forall hkept]

/-- Elements that stand for distinct classes are of distinct classes. -/
theorem pairwise_of_forall₂ {β : Type} {f : β → α} {l : List β} {classes : List α}
    (h : List.Forall₂ (fun b a => (f b == a) = true) l classes)
    (distinct : classes.Pairwise fun a a' => (a' == a) = false) :
    l.Pairwise fun b b' => (f b' == f b) = false := by
  rw [List.pairwise_iff_getElem] at distinct ⊢
  intro i j hi hj hij
  have hlength := h.length_eq
  have hfirst := h.get hi (hlength ▸ hi)
  have hsecond := h.get hj (hlength ▸ hj)
  have hapart := distinct i j (hlength ▸ hi) (hlength ▸ hj) hij
  rw [List.get_eq_getElem, List.get_eq_getElem] at hfirst hsecond
  rw [BEq.congr_left hsecond, BEq.congr_right hfirst]
  exact hapart

end Classes

/-! ## Keys -/

/-- What a plan is looked up by. -/
structure PlanKey where
  /-- Identity of the schema. -/
  schema : Nat
  template : Expr

/-- Keys are of one class if one plan serves both. -/
instance : BEq PlanKey where
  beq k l := k.schema == l.schema && k.template.alike l.template

theorem PlanKey.beq_iff {k l : PlanKey} :
    (k == l) = true ↔ k.schema = l.schema ∧ k.template.alike l.template = true := by
  show (k.schema == l.schema && k.template.alike l.template) = true ↔ _
  rw [Bool.and_eq_true, beq_iff_eq]

instance : EquivBEq PlanKey where
  rfl := PlanKey.beq_iff.2 ⟨rfl, Expr.alike_refl _⟩
  symm := by
    intro k l h
    rcases PlanKey.beq_iff.1 h with ⟨hschema, halike⟩
    exact PlanKey.beq_iff.2 ⟨hschema.symm, Expr.alike_symm halike⟩
  trans := by
    intro k l m h h'
    rcases PlanKey.beq_iff.1 h with ⟨hschema, halike⟩
    rcases PlanKey.beq_iff.1 h' with ⟨hschema', halike'⟩
    exact PlanKey.beq_iff.2 ⟨hschema.trans hschema', Expr.alike_trans halike halike'⟩

/-- The key that a plan was compiled for. -/
def Plan.key (plan : Plan) : PlanKey :=
  ⟨plan.schema, plan.template⟩

theorem Plan.serves_eq (plan : Plan) (key : PlanKey) :
    plan.serves key.schema key.template = (plan.key == key) :=
  rfl

/-! ## Recall -/

namespace PlanCache

/-- The first phase of a request to a cache that is not disabled. -/
theorem probe_of_enabled {cache : PlanCache} (henabled : cache.enabled = true) (key : PlanKey) :
    cache.probe key.schema key.template =
      match cache.find? key.schema key.template with
      | some (slot, plan) =>
          (.hit plan, { cache with plans := cache.plans.moveToFront slot, hits := cache.hits + 1 },
            [.cache .hit])
      | none => (.miss, { cache with misses := cache.misses + 1 }, [.cache .miss]) :=
  if_neg (by simp [henabled])

/-- The cache holds one plan for each of the classes that were answered last, the latest first. -/
structure Recalls (depth : Nat) (history : List PlanKey) (cache : PlanCache) : Prop where
  positive : 0 < depth
  enabled : cache.enabled = true
  depth_eq : cache.depth = depth
  linked : ∃ order, cache.plans.Lists order ∧
    List.Forall₂ (fun visited key => (visited.2.key == key) = true) order
      (history.eraseDups.take depth)

namespace Recalls

variable {depth slot : Nat} {history : List PlanKey} {cache : PlanCache} {key : PlanKey}
  {plan compiled : Plan}

theorem ofValid (positive : 0 < depth) : Recalls depth [] (.ofValid ⟨true, depth⟩) :=
  ⟨positive, rfl, rfl, [], .empty, by simp⟩

theorem clear (h : Recalls depth history cache) : Recalls depth [] cache.clear :=
  ⟨h.positive, h.enabled, h.depth_eq, [], .empty, by simp⟩

theorem plans (h : Recalls depth history cache) :
    List.Forall₂ (fun plan key => (plan.key == key) = true) cache.toList
      (history.eraseDups.take depth) := by
  rcases h.linked with ⟨order, hlists, hkeys⟩
  rw [toList, hlists.toList, List.forall₂_map_left_iff]
  exact hkeys

theorem size (h : Recalls depth history cache) :
    cache.size = cache.toList.length ∧ cache.toList.length ≤ depth := by
  rcases h.linked with ⟨order, hlists, -⟩
  constructor
  · rw [PlanCache.size, hlists.len, toList, hlists.toList, List.length_map]
  · rw [h.plans.length_eq]
    exact List.length_take_le _ _

theorem distinct_keys (history : List PlanKey) (depth : Nat) :
    (history.eraseDups.take depth).Pairwise fun k l => (l == k) = false :=
  (eraseDups_pairwise history).sublist (List.take_sublist _ _)

theorem distinct (h : Recalls depth history cache) :
    cache.toList.Pairwise fun p q => (q.key == p.key) = false :=
  pairwise_of_forall₂ h.plans (distinct_keys history depth)

/-- A lookup walks far enough to see every plan. -/
theorem find?_eq (h : Recalls depth history cache) {order : List (Nat × Plan)}
    (hlists : cache.plans.Lists order)
    (hkeys : List.Forall₂ (fun visited key => (visited.2.key == key) = true) order
      (history.eraseDups.take depth)) (key : PlanKey) :
    cache.find? key.schema key.template = order.find? fun visited => visited.2.key == key := by
  have hlength : order.length ≤ cache.depth := by
    rw [hkeys.length_eq, h.depth_eq]
    exact List.length_take_le _ _
  simp only [PlanCache.find?, hlists.find?, List.take_of_length_le hlength, Plan.serves_eq]

theorem isSome_find? (h : Recalls depth history cache) (key : PlanKey) :
    (cache.find? key.schema key.template).isSome = true ↔
      ∃ plan ∈ cache.toList, (plan.key == key) = true := by
  rcases h.linked with ⟨order, hlists, hkeys⟩
  rw [h.find?_eq hlists hkeys, List.find?_isSome, toList, hlists.toList]
  constructor
  · rintro ⟨visited, hvisited, hserves⟩
    exact ⟨visited.2, List.mem_map_of_mem hvisited, hserves⟩
  · rintro ⟨plan, hplan, hserves⟩
    rcases List.mem_map.1 hplan with ⟨visited, hvisited, rfl⟩
    exact ⟨visited, hvisited, hserves⟩

/-- The keys that cached plans serve are those of the classes that are recalled. -/
theorem exists_mem_iff (h : Recalls depth history cache) (key : PlanKey) :
    (∃ plan ∈ cache.toList, (plan.key == key) = true) ↔
      ∃ k ∈ history.eraseDups.take depth, (k == key) = true := by
  apply exists_mem_iff_of_forall₂ h.plans
  intro plan k hserves
  rw [BEq.congr_left hserves]

/-- No two cached plans serve one key. -/
theorem eq_of_serves (h : Recalls depth history cache) {p q : Plan} (hp : p ∈ cache.toList)
    (hq : q ∈ cache.toList) (hpkey : (p.key == key) = true) (hqkey : (q.key == key) = true) :
    p = q := by
  by_contra hne
  have : Std.Symm fun p q : Plan => (q.key == p.key) = false :=
    ⟨fun _ _ hapart => BEq.comm.trans hapart⟩
  -- Different plans are of different classes, but both are of the class of the key.
  have hapart := h.distinct.forall hp hq hne
  rw [BEq.congr_left hqkey, BEq.comm, hpkey] at hapart
  cases hapart

/-- A plan that is found is moved to the front, as its class is in the history. -/
theorem moveToFront (h : Recalls depth history cache)
    (hfind : cache.find? key.schema key.template = some (slot, plan)) (hits discarded : Nat) :
    let moved := { cache with plans := cache.plans.moveToFront slot, hits, discarded }
    Recalls depth (key :: history) moved ∧ (plan.key == key) = true ∧
      moved.toList.head? = some plan ∧ moved.toList.Perm cache.toList := by
  intro moved
  have hrecalled := (h.exists_mem_iff key).1 ((h.isSome_find? key).1 (by simp [hfind]))
  rcases h.linked with ⟨order, hlists, hkeys⟩
  rw [h.find?_eq hlists hkeys] at hfind
  rcases List.find?_eq_some_iff_append.1 hfind with ⟨hserves, before, after, rfl, hbefore⟩
  have hmoved : moved.plans.Lists ((slot, plan) :: (before ++ after)) := hlists.moveToFront
  -- Only the plan that was found serves the key, so the others are those that do not.
  have hafter : ∀ visited ∈ after, (visited.2.key == key) = false := by
    have hdistinct := pairwise_of_forall₂ hkeys (distinct_keys history depth)
    have hsplit := (List.pairwise_append.1 hdistinct).2.1
    intro visited hvisited
    rw [← BEq.congr_right hserves]
    exact (List.pairwise_cons.1 hsplit).1 visited hvisited
  have hothers : (before ++ (slot, plan) :: after).filter (fun visited => !visited.2.key == key) =
      before ++ after := by
    have hkeep : before.filter (fun visited => !visited.2.key == key) = before :=
      List.filter_eq_self.2 hbefore
    have hkeep' : after.filter (fun visited => !visited.2.key == key) = after :=
      List.filter_eq_self.2 fun visited hvisited => by simp [hafter visited hvisited]
    rw [List.filter_append, List.filter_cons_of_neg (by simp [hserves]), hkeep, hkeep']
  obtain ⟨count, rfl⟩ : ∃ count, depth = count + 1 := Nat.exists_eq_add_one.2 h.positive
  refine ⟨⟨h.positive, h.enabled, h.depth_eq, _, hmoved, ?_⟩, hserves, ?_, ?_⟩
  · rw [take_eraseDups_cons_of_exists hrecalled, ← hothers]
    -- The plans left out on one side are those of the class left out on the other.
    refine List.Forall₂.cons hserves (List.rel_filter ?_ hkeys)
    intro visited k heq
    simp [BEq.congr_left heq]
  · rw [toList, hmoved.toList]
    rfl
  · rw [toList, hmoved.toList, toList, hlists.toList]
    exact (List.perm_middle.map _).symm

/-- A plan for a class that is not recalled takes the first place, and the last one goes if there are
too many. -/
theorem insert (h : Recalls depth history cache)
    (hfind : cache.find? key.schema key.template = none) (hcompiled : (compiled.key == key) = true)
    (truncated : Nat) :
    let plans := (cache.plans.truncate (cache.depth - 1)).1.pushFront compiled
    Recalls depth (key :: history) { cache with plans, truncated } ∧
      plans.toList.head? = some compiled := by
  intro plans
  -- No plan was found, so the class is not among those that are recalled.
  have hmissing : ∀ k ∈ history.eraseDups.take depth, (k == key) = false := by
    intro k hk
    rw [← Bool.not_eq_true]
    intro heq
    have hfound := (h.isSome_find? key).2 ((h.exists_mem_iff key).2 ⟨k, hk, heq⟩)
    simp [hfind] at hfound
  rcases h.linked with ⟨order, hlists, hkeys⟩
  obtain ⟨count, rfl⟩ : ∃ count, depth = count + 1 := Nat.exists_eq_add_one.2 h.positive
  -- One place is made free, and the new plan takes it.
  rcases (hlists.truncate count).1.pushFront compiled with ⟨index, hpushed⟩
  have hinserted : plans.Lists ((index, compiled) :: order.take count) := by
    simp only [plans, h.depth_eq]
    exact hpushed
  have hnew : ∀ k ∈ history.eraseDups.take count, (k == key) = false := by
    intro k hk
    exact hmissing k (List.take_subset_take_left _ (Nat.le_succ count) hk)
  refine ⟨⟨h.positive, h.enabled, h.depth_eq, _, hinserted, ?_⟩, ?_⟩
  · rw [take_eraseDups_cons_of_forall hnew]
    have hkept := List.forall₂_take count hkeys
    rw [List.take_take, Nat.min_eq_left (Nat.le_succ count)] at hkept
    exact List.Forall₂.cons hcompiled hkept
  · rw [hinserted.toList]
    rfl

/-! ### The two phases of a request -/

/-- The first phase answers with the plan for the key, if there is one. -/
theorem probe_hit (h : Recalls depth history cache)
    (hprobe : (cache.probe key.schema key.template).1 = .hit plan) :
    Recalls depth (key :: history) (cache.probe key.schema key.template).2.1 ∧
      (plan.key == key) = true ∧
      (cache.probe key.schema key.template).2.1.toList.head? = some plan ∧
      ∃ cached ∈ cache.toList, (cached.key == key) = true := by
  cases hfind : cache.find? key.schema key.template with
  | none => simp [probe_of_enabled h.enabled key, hfind] at hprobe
  | some found =>
      rcases found with ⟨slot, found⟩
      rw [probe_of_enabled h.enabled key, hfind] at hprobe ⊢
      cases hprobe
      rcases h.moveToFront hfind (cache.hits + 1) cache.discarded with ⟨hrecalls, hserves, hhead, -⟩
      exact ⟨hrecalls, hserves, hhead, (h.isSome_find? key).1 (by simp [hfind])⟩

/-- Otherwise it only counts. -/
theorem probe_miss (h : Recalls depth history cache)
    (hprobe : (cache.probe key.schema key.template).1 = .miss) :
    Recalls depth history (cache.probe key.schema key.template).2.1 ∧
      (cache.probe key.schema key.template).2.1.toList = cache.toList ∧
      ¬∃ cached ∈ cache.toList, (cached.key == key) = true := by
  cases hfind : cache.find? key.schema key.template with
  | some found => simp [probe_of_enabled h.enabled key, hfind] at hprobe
  | none =>
      rw [probe_of_enabled h.enabled key, hfind]
      refine ⟨⟨h.positive, h.enabled, h.depth_eq, h.linked⟩, rfl, ?_⟩
      intro hcached
      simpa [hfind] using (h.isSome_find? key).2 hcached

/-- Whatever happened since the first phase, the second one answers with a plan for the key: the cached
one if there is one by now, and then the cached plans stay the same. -/
theorem settle (h : Recalls depth history cache) (hcompiled : (compiled.key == key) = true) :
    Recalls depth (key :: history) (cache.settle key.schema key.template compiled).2.1 ∧
      ((cache.settle key.schema key.template compiled).1.key == key) = true ∧
      (cache.settle key.schema key.template compiled).2.1.toList.head? =
        some (cache.settle key.schema key.template compiled).1 ∧
      ∀ cached ∈ cache.toList, (cached.key == key) = true →
        (cache.settle key.schema key.template compiled).1 = cached ∧
          (cache.settle key.schema key.template compiled).2.1.toList.Perm cache.toList := by
  unfold PlanCache.settle
  split
  · next slot found hfind =>
      rcases h.moveToFront hfind cache.hits (cache.discarded + 1) with
        ⟨hrecalls, hserves, hhead, hperm⟩
      refine ⟨hrecalls, hserves, hhead, ?_⟩
      intro cached hcached hkey
      have hfound := hperm.subset (List.mem_of_head? hhead)
      exact ⟨h.eq_of_serves hfound hcached hserves hkey, hperm⟩
  · next hfind =>
      rcases h.insert hfind hcompiled _ with ⟨hrecalls, hhead⟩
      refine ⟨hrecalls, hcompiled, hhead, ?_⟩
      intro cached hcached hkey
      have hfound := (h.isSome_find? key).2 ⟨cached, hcached, hkey⟩
      simp [hfind] at hfound

end Recalls

end PlanCache

end QueryPlan
