import QueryPlan.Cache.Plans

/-!
# Entries — a property of cached plans that every operation keeps

Relinking, recycling and dropping slots never invents an entry: whatever holds of all entries of a
recency list still holds after each of its operations, provided that it holds of an entry that is
added.  For a cache this means that a property of plans is kept by both phases of a request, and that
the plan which answers a request has it.
-/

namespace QueryPlan

namespace Recency

variable {α : Type} {P : α → Prop} {r : Recency α}

/-- Every linked entry has a property. -/
def Holds (P : α → Prop) (r : Recency α) : Prop :=
  ∀ index linked, r.slot? index = some linked → P linked.entry

namespace Holds

theorem empty : Holds P (.empty : Recency α) := by
  intro index linked h
  simp [slot?, Recency.empty] at h

/-- Only the slots matter. -/
theorem of_slots {r' : Recency α} (h : Holds P r) (hslots : r'.slots = r.slots) : Holds P r' := by
  intro index linked hlinked
  refine h index linked ?_
  rwa [slot?, ← hslots]

theorem modifySlot (h : Holds P r) (index : Nat) {change : Linked α → Linked α}
    (keeps : ∀ linked, (change linked).entry = linked.entry) : Holds P (r.modifySlot index change) := by
  intro other linked hlinked
  simp only [slot?, Recency.modifySlot, Array.getElem?_modify] at hlinked
  split at hlinked
  · cases hslot : r.slots[other]? with
    | none => simp [hslot] at hlinked
    | some content =>
        cases content with
        | none => simp [hslot] at hlinked
        | some found =>
            obtain rfl : change found = linked := by simpa [hslot] using hlinked
            rw [keeps]
            exact h other found (by rw [slot?, hslot]; rfl)
  · exact h other linked hlinked

theorem unlink (h : Holds P r) (index : Nat) : Holds P (r.unlink index) := by
  unfold Recency.unlink
  split
  · exact h
  · next prev next _ =>
      dsimp only
      -- The link from the slot before is redirected first, then the one from the slot after; neither
      -- touches an entry.
      cases prev.filter r.isUsed with
      | none =>
          have hhead : Holds P { r with head := next } := h.of_slots rfl
          dsimp only
          split
          · exact hhead.modifySlot _ fun _ => rfl
          · exact hhead.of_slots rfl
      | some p =>
          have hprev : Holds P (r.modifySlot p fun s => { s with next := next }) :=
            h.modifySlot p fun _ => rfl
          dsimp only
          split
          · exact hprev.modifySlot _ fun _ => rfl
          · exact hprev.of_slots rfl

theorem linkFront (h : Holds P r) (index : Nat) : Holds P (r.linkFront index) := by
  unfold Recency.linkFront
  dsimp only
  split
  · next head _ =>
      have hmodified : Holds P (r.modifySlot head fun s => { s with prev := some index }) :=
        h.modifySlot head fun _ => rfl
      exact hmodified.of_slots rfl
  · exact h.of_slots rfl

theorem allocate (h : Holds P r) {linked : Linked α} (hentry : P linked.entry) :
    Holds P (r.allocate linked).2 := by
  unfold Recency.allocate
  split
  -- A freed slot is taken again before the array grows.
  · next index free _ =>
      intro other found hfound
      simp only [slot?, Array.set!_eq_setIfInBounds, Array.getElem?_setIfInBounds] at hfound
      split at hfound
      · split at hfound
        · obtain rfl : linked = found := by simpa using hfound
          exact hentry
        · cases hfound
      · exact h other found hfound
  · intro other found hfound
    simp only [slot?, Array.getElem?_push] at hfound
    split at hfound
    · obtain rfl : linked = found := by simpa using hfound
      exact hentry
    · exact h other found hfound

theorem pushFront (h : Holds P r) {entry : α} (hentry : P entry) : Holds P (r.pushFront entry) := by
  unfold Recency.pushFront
  exact ((h.allocate hentry).linkFront _).of_slots rfl

theorem moveToFront (h : Holds P r) (index : Nat) : Holds P (r.moveToFront index) := by
  unfold Recency.moveToFront
  split
  · exact h
  · have hmodified : Holds P ((r.unlink index).modifySlot index fun s =>
        { s with prev := none, next := (r.unlink index).head }) :=
      (h.unlink index).modifySlot index fun _ => rfl
    exact hmodified.linkFront index

theorem popBack {r' : Recency α} (h : Holds P r) (hpop : r.popBack = some r') : Holds P r' := by
  unfold Recency.popBack at hpop
  split at hpop
  · cases hpop
  · next tail _ =>
      rcases Option.some.inj hpop with rfl
      intro other found hfound
      simp only [slot?, Array.set!_eq_setIfInBounds, Array.getElem?_setIfInBounds] at hfound
      split at hfound
      -- The freed slot is empty now, and all others are as after unlinking.
      · split at hfound
        · simp at hfound
        · simp at hfound
      · exact h.unlink tail other found hfound

theorem dropBack (h : Holds P r) (count : Nat) : Holds P (r.dropBack count).1 := by
  induction count generalizing r with
  | zero => exact h
  | succ count ih =>
      unfold Recency.dropBack
      split
      · exact h
      · next hpop => exact ih (h.popBack hpop)

theorem truncate (h : Holds P r) (keep : Nat) : Holds P (r.truncate keep).1 :=
  h.dropBack _

end Holds

/-- Every entry that a walk visits is linked. -/
theorem Holds.walk (h : Holds P r) (bound : Nat) (start : Option Nat) :
    ∀ visited ∈ r.walk bound start, P visited.2 := by
  induction bound generalizing start with
  | zero => simp [Recency.walk]
  | succ bound ih =>
      cases start with
      | none => simp [Recency.walk]
      | some index =>
          rw [Recency.walk]
          split
          · next linked hlinked =>
              rw [List.forall_mem_cons]
              exact ⟨h index linked hlinked, ih linked.next⟩
          · simp

/-- What is found has the property and satisfies the condition. -/
theorem Holds.find? (h : Holds P r) {depth index : Nat} {condition : α → Bool} {entry : α}
    (hfind : r.find? depth condition = some (index, entry)) : P entry ∧ condition entry = true := by
  unfold Recency.find? at hfind
  exact ⟨h.walk _ _ _ (List.mem_of_find?_eq_some hfind), by simpa using List.find?_some hfind⟩

end Recency

namespace PlanCache

variable {P : Plan → Prop} {cache : PlanCache}

/-- Every cached plan has a property. -/
def Holds (P : Plan → Prop) (cache : PlanCache) : Prop :=
  cache.plans.Holds P

namespace Holds

theorem ofValid (config : CacheConfig) : Holds P (.ofValid config) :=
  Recency.Holds.empty

theorem clear (cache : PlanCache) : Holds P cache.clear :=
  Recency.Holds.empty

/-- The first phase of a request keeps the property. -/
theorem probe (h : Holds P cache) (schema : Nat) (template : Expr) :
    Holds P (cache.probe schema template).2.1 := by
  unfold PlanCache.probe
  split
  · exact h
  · split
    · exact Recency.Holds.moveToFront h _
    · exact h

/-- A plan that answers a request in the first phase has the property and serves the request. -/
theorem hit (h : Holds P cache) {schema : Nat} {template : Expr} {plan : Plan}
    (hhit : (cache.probe schema template).1 = .hit plan) :
    P plan ∧ plan.serves schema template = true := by
  unfold PlanCache.probe at hhit
  split at hhit
  · cases hhit
  · split at hhit
    · next hfind =>
        cases hhit
        exact Recency.Holds.find? h hfind
    · cases hhit

/-- The second phase of a request keeps the property, if the compiled plan has it.  The plan that
answers is the compiled one or serves the request. -/
theorem settle (h : Holds P cache) {compiled : Plan} (hcompiled : P compiled) (schema : Nat)
    (template : Expr) :
    Holds P (cache.settle schema template compiled).2.1 ∧
      P (cache.settle schema template compiled).1 ∧
      ((cache.settle schema template compiled).1 = compiled ∨
        (cache.settle schema template compiled).1.serves schema template = true) := by
  unfold PlanCache.settle
  split
  -- The template was compiled meanwhile, and the plan found then is kept instead.
  · next hfind =>
      rcases Recency.Holds.find? h hfind with ⟨hplan, hserves⟩
      exact ⟨Recency.Holds.moveToFront h _, hplan, .inr hserves⟩
  · exact ⟨(Recency.Holds.truncate h _).pushFront hcompiled, hcompiled, .inl rfl⟩

end Holds

end PlanCache

end QueryPlan
