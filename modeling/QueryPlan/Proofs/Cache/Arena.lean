import Mathlib.Data.List.Induction
import QueryPlan.Proofs.Cache.Links

/-!
# Arena — a recency list goes through operations as a plain list does

`Numbered` is a plain list whose entries have numbers, by which they are moved to the front.  The same
operations are performed on it and on a recency list, and `Represents` says what the two have in common at
any time: the links read the list forwards from the head and backwards from the tail, they run through all
slots that hold an entry, and all other slots are free.

`Tracks` is the invariant that carries this.  Beyond `Lists` it says which slots are to be recycled, and
that there are no slots but these and the linked ones.  That is a fact about numbers alone: linked and free
slots are distinct, so if there are as many of them as there are slots, they are all slots.
-/

namespace QueryPlan
namespace Recency

variable {α : Type} {r : Recency α}

/-! ## Operations -/

/-- What is done to a list of entries that is kept by recency. -/
inductive Operation (α : Type) where
  | pushFront (entry : α)
  | moveToFront (index : Nat)
  | truncate (keep : Nat)

/-- A plain list of entries with numbers.  The numbers of dropped entries are spare and will be given out
again, those of the latest drop first. -/
structure Numbered (α : Type) where
  entries : List (Nat × α)
  spare : List Nat

namespace Numbered

def empty : Numbered α :=
  ⟨[], []⟩

/-- The number of the next entry: a spare one, or else the first that was never given out. -/
def next (list : Numbered α) : Nat :=
  list.spare.headD list.entries.length

/-- Put an entry in front of all others. -/
def pushFront (list : Numbered α) (entry : α) : Numbered α :=
  ⟨(list.next, entry) :: list.entries, list.spare.tail⟩

/-- Move the entry with a number in front of all others, if there is one. -/
def moveToFront (list : Numbered α) (index : Nat) : Numbered α :=
  ⟨list.entries.filter (·.1 == index) ++ list.entries.filter (·.1 != index), list.spare⟩

/-- Keep the first entries; returns how many went. -/
def truncate (list : Numbered α) (keep : Nat) : Numbered α × Nat :=
  (⟨list.entries.take keep, (list.entries.drop keep).map (·.1) ++ list.spare⟩,
    list.entries.length - keep)

end Numbered

namespace Operation

/-- Perform an operation on a recency list; returns how many entries it dropped. -/
def onArena (r : Recency α) : Operation α → Recency α × Nat
  | pushFront entry => (r.pushFront entry, 0)
  | moveToFront index => (r.moveToFront index, 0)
  | truncate keep => r.truncate keep

/-- Perform an operation on a plain list; returns how many entries it dropped. -/
def onList (list : Numbered α) : Operation α → Numbered α × Nat
  | pushFront entry => (list.pushFront entry, 0)
  | moveToFront index => (list.moveToFront index, 0)
  | truncate keep => list.truncate keep

/-- Perform operations one after the other; returns how many entries each of them dropped. -/
def performAll {σ : Type} (perform : σ → Operation α → σ × Nat) (start : σ) :
    List (Operation α) → σ × List Nat
  | [] => (start, [])
  | operation :: rest =>
      let (reached, dropped) := perform start operation
      let (final, later) := performAll perform reached rest
      (final, dropped :: later)

theorem performAll_concat {σ : Type} (perform : σ → Operation α → σ × Nat) (start : σ)
    (operations : List (Operation α)) (last : Operation α) :
    (performAll perform start (operations ++ [last])).1 =
      (perform (performAll perform start operations).1 last).1 := by
  induction operations generalizing start with
  | nil => rfl
  | cons operation rest ih => exact ih (perform start operation).1

end Operation

/-! ## Following links -/

/-- From a slot, links lead through slots with these entries and then end. -/
inductive Follows (r : Recency α) (link : Linked α → Option Nat) :
    Option Nat → List (Nat × α) → Prop
  | stop : Follows r link none []
  | step {index : Nat} {linked : Linked α} {rest : List (Nat × α)}
      (here : r.slot? index = some linked) (onwards : Follows r link (link linked) rest) :
      Follows r link (some index) ((index, linked.entry) :: rest)

/-- A recency list stands for a plain list. -/
structure Represents (r : Recency α) (list : Numbered α) : Prop where
  forwards : r.Follows Linked.next r.head list.entries
  backwards : r.Follows Linked.prev r.tail list.entries.reverse
  /-- Each slot is linked once. -/
  distinct : (list.entries.map (·.1)).Nodup
  /-- The linked slots are those that hold an entry. -/
  linked : ∀ index, index ∈ list.entries.map (·.1) ↔ r.isUsed index = true
  len : r.len = list.entries.length
  /-- Each slot is to be recycled once. -/
  freeDistinct : r.free.Nodup
  /-- The slots to be recycled are those that hold nothing. -/
  free : ∀ index, index ∈ r.free ↔ index < r.slots.size ∧ r.isUsed index = false
  /-- A walk through all slots reads the entries. -/
  toList : r.toList = list.entries.map (·.2)

namespace Segment

variable {prev next : Option Nat} {order : List (Nat × α)}

theorem follows_next (h : r.Segment prev order none) :
    r.Follows Linked.next (firstSlot order) order := by
  induction order generalizing prev with
  | nil => exact .stop
  | cons visited rest ih =>
      have onwards := ih h.2
      rw [← Option.or_none (o := firstSlot rest)] at onwards
      exact .step h.1 onwards

theorem follows_prev (h : r.Segment none order next) :
    r.Follows Linked.prev (lastSlot order) order.reverse := by
  -- Links lead back from the last slot, so the induction is on the list from its end.
  induction order using List.reverseRecOn generalizing next with
  | nil => exact .stop
  | append_singleton before visited ih =>
      rcases append_iff.1 h with ⟨hbefore, hslot, -⟩
      have onwards := ih hbefore
      rw [← Option.or_none (o := lastSlot before)] at onwards
      rw [lastSlot_append, List.reverse_append]
      exact .step hslot onwards

end Segment

/-! ## Slots that are taken -/

/-- A new entry becomes the head, in the slot that was allocated for it. -/
theorem pushFront_of_allocate {entry : α} {index : Nat} {r' : Recency α}
    (h : r.allocate ⟨entry, none, r.head⟩ = (index, r')) :
    (r.pushFront entry).head = some index ∧ (r.pushFront entry).free = r'.free ∧
      (r.pushFront entry).slots.size = r'.slots.size := by
  have hpush : r.pushFront entry =
      { r'.linkFront index with len := (r'.linkFront index).len + 1 } := by
    rw [pushFront, h]
  have hrelinked := relinked_linkFront r' index
  rw [hpush]
  exact ⟨rfl, hrelinked.free, hrelinked.size⟩

/-- The slot to be recycled first is taken. -/
theorem pushFront_of_free {slot : Nat} {rest : List Nat} (h : r.free = slot :: rest) (entry : α) :
    (r.pushFront entry).head = some slot ∧ (r.pushFront entry).free = rest ∧
      (r.pushFront entry).slots.size = r.slots.size := by
  have hallocate : r.allocate ⟨entry, none, r.head⟩ =
      (slot, { r with slots := r.slots.set! slot (some ⟨entry, none, r.head⟩), free := rest }) := by
    rw [allocate, h]
  rcases pushFront_of_allocate hallocate with ⟨hhead, hfree, hsize⟩
  refine ⟨hhead, hfree, ?_⟩
  rw [hsize]
  simp

/-- A slot is added only if there is none to be recycled. -/
theorem pushFront_of_full (h : r.free = []) (entry : α) :
    (r.pushFront entry).head = some r.slots.size ∧ (r.pushFront entry).free = [] ∧
      (r.pushFront entry).slots.size = r.slots.size + 1 := by
  have hallocate : r.allocate ⟨entry, none, r.head⟩ =
      (r.slots.size, { r with slots := r.slots.push (some ⟨entry, none, r.head⟩) }) := by
    rw [allocate, h]
  rcases pushFront_of_allocate hallocate with ⟨hhead, hfree, hsize⟩
  refine ⟨hhead, hfree.trans h, ?_⟩
  rw [hsize]
  simp

/-! ## The invariant -/

namespace Numbered

variable {list : Numbered α} {index : Nat} {entry : α} {before after : List (Nat × α)}

/-- Entries with other numbers all stay. -/
theorem filter_of_notMem {order : List (Nat × α)} (h : index ∉ order.map (·.1)) :
    order.filter (·.1 == index) = [] ∧ order.filter (·.1 != index) = order := by
  have other : ∀ visited ∈ order, visited.1 ≠ index := by
    intro visited hvisited heq
    exact h (heq ▸ List.mem_map_of_mem hvisited)
  constructor
  · exact List.filter_eq_nil_iff.2 fun visited hvisited => by simpa using other visited hvisited
  · exact List.filter_eq_self.2 fun visited hvisited => by simpa using other visited hvisited

theorem moveToFront_of_notMem (h : index ∉ list.entries.map (·.1)) :
    list.moveToFront index = list := by
  rcases filter_of_notMem h with ⟨none_moved, all_stay⟩
  rw [moveToFront, none_moved, all_stay, List.nil_append]

theorem moveToFront_of_split (hsplit : list.entries = before ++ (index, entry) :: after)
    (h : index ∉ (before ++ after).map (·.1)) :
    (list.moveToFront index).entries = (index, entry) :: (before ++ after) := by
  rw [List.map_append, List.mem_append, not_or] at h
  rcases filter_of_notMem h.1 with ⟨hbefore, hbefore'⟩
  rcases filter_of_notMem h.2 with ⟨hafter, hafter'⟩
  rw [moveToFront, hsplit]
  simp [hbefore, hbefore', hafter, hafter']

theorem length_moveToFront (list : Numbered α) (index : Nat) :
    (list.moveToFront index).entries.length = list.entries.length := by
  have hperm := List.filter_append_perm (fun visited : Nat × α => visited.1 == index) list.entries
  exact hperm.length_eq

end Numbered

/-- A recency list is chained as a plain list says, gives out the same numbers, and has no slots but the
linked and the spare ones. -/
structure Tracks (r : Recency α) (list : Numbered α) : Prop extends r.Lists list.entries where
  recycled : r.free = list.spare
  full : r.slots.size = list.entries.length + list.spare.length

namespace Tracks

variable {list : Numbered α}

theorem empty : (.empty : Recency α).Tracks .empty :=
  ⟨Lists.empty, rfl, rfl⟩

/-- The number that the plain list gives out is the slot that the arena takes. -/
theorem pushFront (h : r.Tracks list) (entry : α) :
    (r.pushFront entry).Tracks (list.pushFront entry) := by
  rcases h.toLists.pushFront entry with ⟨index, lists⟩
  have hfirst : (r.pushFront entry).head = some index := lists.head
  have hfull := h.full
  cases hspare : list.spare with
  | nil =>
      rcases pushFront_of_full (h.recycled.trans hspare) entry with ⟨hhead, hfree, hsize⟩
      rw [hspare, List.length_nil, Nat.add_zero] at hfull
      obtain rfl : r.slots.size = index := Option.some.inj (hhead.symm.trans hfirst)
      have hpush : list.pushFront entry = ⟨(r.slots.size, entry) :: list.entries, []⟩ := by
        rw [Numbered.pushFront, Numbered.next, hspare, hfull]
        rfl
      rw [hpush]
      exact ⟨lists, hfree, by rw [hsize, hfull]; rfl⟩
  | cons slot rest =>
      rcases pushFront_of_free (h.recycled.trans hspare) entry with ⟨hhead, hfree, hsize⟩
      rw [hspare, List.length_cons] at hfull
      obtain rfl : slot = index := Option.some.inj (hhead.symm.trans hfirst)
      have hpush : list.pushFront entry = ⟨(slot, entry) :: list.entries, rest⟩ := by
        rw [Numbered.pushFront, Numbered.next, hspare]
        rfl
      rw [hpush]
      refine ⟨lists, hfree, ?_⟩
      show (r.pushFront entry).slots.size = (list.entries.length + 1) + rest.length
      rw [hsize, hfull]
      omega

/-- Linked and free slots are distinct, and there are as many as there are slots. -/
theorem mem_or_free (h : r.Tracks list) {index : Nat} (hindex : index < r.slots.size) :
    index ∈ list.entries.map (·.1) ∨ index ∈ r.free := by
  have distinct : (list.entries.map (·.1) ++ r.free).Nodup := by
    refine List.nodup_append.2 ⟨h.distinct, h.spare.distinct, ?_⟩
    rintro linked hlinked _ hfree rfl
    rcases h.segment.slot?_of_mem hlinked with ⟨found, hfound⟩
    cases (h.spare.empty linked hfree).2.symm.trans hfound
  have inside : list.entries.map (·.1) ++ r.free ⊆ List.range r.slots.size := by
    intro other hother
    rcases List.mem_append.1 hother with hlinked | hfree
    · rcases h.segment.slot?_of_mem hlinked with ⟨found, hfound⟩
      exact List.mem_range.2 (lt_size_of_slot? hfound)
    · exact List.mem_range.2 (h.spare.empty other hfree).1
  have many : (List.range r.slots.size).length ≤ (list.entries.map (·.1) ++ r.free).length := by
    simp [h.full, h.recycled]
  have all := (List.subperm_of_subset distinct inside).perm_of_length_le many
  exact List.mem_append.1 (all.mem_iff.2 (List.mem_range.2 hindex))

theorem linked_iff (h : r.Tracks list) (index : Nat) :
    index ∈ list.entries.map (·.1) ↔ r.isUsed index = true := by
  constructor
  · intro hlinked
    rcases h.segment.slot?_of_mem hlinked with ⟨found, hfound⟩
    exact isUsed_of_slot? hfound
  · intro hused
    rcases Option.isSome_iff_exists.1 hused with ⟨found, hfound⟩
    refine (h.mem_or_free (lt_size_of_slot? hfound)).resolve_right ?_
    intro hfree
    cases (h.spare.empty index hfree).2.symm.trans hfound

theorem free_iff (h : r.Tracks list) (index : Nat) :
    index ∈ r.free ↔ index < r.slots.size ∧ r.isUsed index = false := by
  constructor
  · intro hfree
    rcases h.spare.empty index hfree with ⟨hlt, hempty⟩
    exact ⟨hlt, by simp [isUsed, hempty]⟩
  · rintro ⟨hlt, hunused⟩
    refine (h.mem_or_free hlt).resolve_left ?_
    intro hlinked
    rw [(h.linked_iff index).1 hlinked] at hunused
    cases hunused

theorem moveToFront (h : r.Tracks list) (index : Nat) :
    (r.moveToFront index).Tracks (list.moveToFront index) := by
  by_cases hindex : index ∈ list.entries.map (·.1)
  · rcases List.mem_map.1 hindex with ⟨⟨number, entry⟩, hmem, rfl⟩
    rcases List.append_of_mem hmem with ⟨before, after, hsplit⟩
    have hlists : r.Lists (before ++ (number, entry) :: after) := hsplit ▸ h.toLists
    have hmoved := Numbered.moveToFront_of_split hsplit (distinct_split hlists.distinct).1
    have hrelinked := relinked_moveToFront r number
    refine ⟨hmoved ▸ hlists.moveToFront, hrelinked.free.trans h.recycled, ?_⟩
    rw [hrelinked.size, h.full, Numbered.length_moveToFront]
    rfl
  -- Without such an entry the slot is empty, and neither list changes.
  · have hunused : r.isUsed index = false := by
      rwa [h.linked_iff, Bool.not_eq_true] at hindex
    have hsame : r.moveToFront index = r := by simp [Recency.moveToFront, hunused]
    rw [hsame, Numbered.moveToFront_of_notMem hindex]
    exact h

theorem truncate (h : r.Tracks list) (keep : Nat) :
    (r.truncate keep).1.Tracks (list.truncate keep).1 ∧
      (r.truncate keep).2 = (list.truncate keep).2 := by
  rcases h.toLists.truncate keep with ⟨lists, hdropped⟩
  rcases h.toLists.dropBack (r.len - keep) with ⟨-, -, hfree, hsize⟩
  -- Nothing is dropped from a list that is short enough.
  have hkept : list.entries.drop (list.entries.length - (r.len - keep)) = list.entries.drop keep := by
    rw [h.len]
    rcases Nat.le_total keep list.entries.length with hle | hle
    · rw [Nat.sub_sub_self hle]
    · rw [Nat.sub_eq_zero_of_le hle, Nat.sub_zero, List.drop_length, List.drop_of_length_le hle]
  refine ⟨⟨lists, ?_, ?_⟩, hdropped⟩
  · rw [Recency.truncate, hfree, hkept, h.recycled]
    rfl
  · rw [Recency.truncate, hsize, h.full, Numbered.truncate]
    simp only [List.length_append, List.length_map, List.length_take, List.length_drop]
    omega

/-- An operation keeps the invariant and drops as many entries as it does from a plain list. -/
theorem perform (h : r.Tracks list) (operation : Operation α) :
    (operation.onArena r).1.Tracks (operation.onList list).1 ∧
      (operation.onArena r).2 = (operation.onList list).2 := by
  cases operation with
  | pushFront entry => exact ⟨h.pushFront entry, rfl⟩
  | moveToFront index => exact ⟨h.moveToFront index, rfl⟩
  | truncate keep => exact h.truncate keep

theorem performAll (h : r.Tracks list) (operations : List (Operation α)) :
    (Operation.performAll Operation.onArena r operations).1.Tracks
        (Operation.performAll Operation.onList list operations).1 ∧
      (Operation.performAll Operation.onArena r operations).2 =
        (Operation.performAll Operation.onList list operations).2 := by
  induction operations generalizing r list with
  | nil => exact ⟨h, rfl⟩
  | cons operation rest ih =>
      rcases h.perform operation with ⟨hreached, hdropped⟩
      rcases ih hreached with ⟨hfinal, hlater⟩
      exact ⟨hfinal, congrArg₂ List.cons hdropped hlater⟩

theorem represents (h : r.Tracks list) : r.Represents list where
  forwards := h.head ▸ h.segment.follows_next
  backwards := h.tail ▸ h.segment.follows_prev
  distinct := h.distinct
  linked := h.linked_iff
  len := h.len
  freeDistinct := h.spare.distinct
  free := h.free_iff
  toList := h.toLists.toList

end Tracks

end Recency
end QueryPlan
