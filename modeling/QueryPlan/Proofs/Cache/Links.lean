import Mathlib.Data.List.Nodup
import Mathlib.Data.List.Perm.Subperm
import QueryPlan.Cache.Recency

/-!
# Links — a recency list is a list

A recency list lives in an arena, and its operations redirect links.  `Lists r order` says that these
links run through the slots of `order`, forwards from the head and backwards from the tail, and that
the slots to be recycled are empty and distinct.  Under this invariant a walk reads `order`, and every
operation is the operation on lists that it is meant to be.

Relinking never touches more than the slots next to the gap that opens or closes.  A segment of the
list that contains neither of them stays as it is, and this is all that the proofs need to know about
the arena.
-/

namespace QueryPlan
namespace Recency

variable {α : Type} {r r' : Recency α} {index : Nat} {entry : α}

/-! ## Slots -/

theorem slot?_modifySlot (r : Recency α) (index other : Nat) (change : Linked α → Linked α) :
    (r.modifySlot index change).slot? other =
      if index = other then (r.slot? other).map change else r.slot? other := by
  simp only [slot?, modifySlot, Array.getElem?_modify]
  split
  · cases r.slots[other]? <;> rfl
  · rfl

theorem join_getElem?_set! (slots : Array (Option (Linked α))) (content : Option (Linked α))
    {index : Nat} (hindex : index < slots.size) (other : Nat) :
    ((slots.set! index content)[other]?).join =
      if index = other then content else (slots[other]?).join := by
  rw [Array.set!_eq_setIfInBounds, Array.getElem?_setIfInBounds]
  split <;> rfl

theorem isUsed_of_slot? {linked : Linked α} (h : r.slot? index = some linked) :
    r.isUsed index = true := by
  simp [isUsed, h]

theorem lt_size_of_slot? {linked : Linked α} (h : r.slot? index = some linked) :
    index < r.slots.size := by
  by_contra hle
  have hnone : r.slots[index]? = none := Array.getElem?_eq_none (Nat.le_of_not_lt hle)
  simp [slot?, hnone] at h

/-- Only links differ: the same slots are used and the same slots are to be recycled. -/
structure Relinked (r r' : Recency α) : Prop where
  size : r'.slots.size = r.slots.size
  free : r'.free = r.free
  len : r'.len = r.len
  used : ∀ index, r'.isUsed index = r.isUsed index

namespace Relinked

theorem refl (r : Recency α) : Relinked r r :=
  ⟨rfl, rfl, rfl, fun _ => rfl⟩

theorem trans {r'' : Recency α} (h : Relinked r r') (h' : Relinked r' r'') : Relinked r r'' :=
  ⟨h'.size.trans h.size, h'.free.trans h.free, h'.len.trans h.len,
    fun index => (h'.used index).trans (h.used index)⟩

theorem modifySlot (r : Recency α) (index : Nat) (change : Linked α → Linked α) :
    Relinked r (r.modifySlot index change) where
  size := by simp [Recency.modifySlot]
  free := rfl
  len := rfl
  used := by
    intro other
    rw [isUsed, slot?_modifySlot]
    split <;> simp [isUsed]

end Relinked

/-! ## Segments -/

def firstSlot (order : List (Nat × α)) : Option Nat :=
  order.head?.map (·.1)

def lastSlot (order : List (Nat × α)) : Option Nat :=
  order.getLast?.map (·.1)

section Ends

variable {order before after : List (Nat × α)}

@[simp] theorem firstSlot_cons (visited : Nat × α) :
    firstSlot (visited :: order) = some visited.1 := rfl

@[simp] theorem firstSlot_append :
    firstSlot (before ++ after) = (firstSlot before).or (firstSlot after) := by
  cases before <;> simp [firstSlot]

@[simp] theorem lastSlot_nil : lastSlot ([] : List (Nat × α)) = none := rfl

@[simp] theorem lastSlot_append :
    lastSlot (before ++ after) = (lastSlot after).or (lastSlot before) := by
  cases hlast : after.getLast? <;> simp [lastSlot, List.getLast?_append, hlast]

@[simp] theorem lastSlot_cons (visited : Nat × α) :
    lastSlot (visited :: order) = (lastSlot order).or (some visited.1) := by
  rw [← List.singleton_append, lastSlot_append]
  rfl

theorem mem_of_firstSlot (h : firstSlot order = some index) : index ∈ order.map (·.1) := by
  rcases Option.map_eq_some_iff.1 h with ⟨visited, hvisited, rfl⟩
  exact List.mem_map_of_mem (List.mem_of_head? hvisited)

theorem mem_of_lastSlot (h : lastSlot order = some index) : index ∈ order.map (·.1) := by
  rcases Option.map_eq_some_iff.1 h with ⟨visited, hvisited, rfl⟩
  exact List.mem_map_of_mem (List.mem_of_getLast? hvisited)

theorem distinct_split (h : ((before ++ (index, entry) :: after).map (·.1)).Nodup) :
    index ∉ (before ++ after).map (·.1) ∧ ((before ++ after).map (·.1)).Nodup := by
  rw [List.map_append, List.map_cons, List.nodup_middle, ← List.map_append] at h
  exact List.nodup_cons.1 h

end Ends

/-- Slots linked in a row.  The first one points back to `prev` and the last one on to `next`. -/
def Segment (r : Recency α) (prev : Option Nat) : List (Nat × α) → Option Nat → Prop
  | [], _ => True
  | (index, entry) :: rest, next =>
      r.slot? index = some ⟨entry, prev, (firstSlot rest).or next⟩ ∧ r.Segment (some index) rest next

namespace Segment

variable {prev prev' next next' : Option Nat} {order before after : List (Nat × α)}

theorem append_iff :
    r.Segment prev (before ++ after) next ↔
      r.Segment prev before ((firstSlot after).or next) ∧
        r.Segment ((lastSlot before).or prev) after next := by
  induction before generalizing prev with
  | nil => simp [Segment]
  | cons visited rest ih =>
      rcases visited with ⟨index, entry⟩
      have hprev : (lastSlot ((index, entry) :: rest)).or prev = (lastSlot rest).or (some index) := by
        simp
      rw [hprev, List.cons_append, Segment, Segment, ih, firstSlot_append, Option.or_assoc, and_assoc]

/-- A segment depends on its own slots only. -/
theorem congr (h : r.Segment prev order next)
    (same : ∀ index ∈ order.map (·.1), r'.slot? index = r.slot? index) :
    r'.Segment prev order next := by
  induction order generalizing prev with
  | nil => trivial
  | cons visited rest ih =>
      rw [List.map_cons, List.forall_mem_cons] at same
      exact ⟨same.1.trans h.1, ih h.2 same.2⟩

theorem modifySlot_of_notMem (h : r.Segment prev order next) (change : Linked α → Linked α)
    (hindex : index ∉ order.map (·.1)) : (r.modifySlot index change).Segment prev order next := by
  apply h.congr
  intro other hother
  have hne : index ≠ other := fun heq => hindex (heq ▸ hother)
  rw [slot?_modifySlot, if_neg hne]

theorem slot?_of_mem (h : r.Segment prev order next) (hindex : index ∈ order.map (·.1)) :
    ∃ linked, r.slot? index = some linked := by
  induction order generalizing prev with
  | nil => cases hindex
  | cons visited rest ih =>
      rcases List.mem_cons.1 hindex with rfl | hindex
      · exact ⟨_, h.1⟩
      · exact ih h.2 hindex

theorem setNext (h : r.Segment prev order next) (distinct : (order.map (·.1)).Nodup)
    (hlast : lastSlot order = some index) (next' : Option Nat) :
    (r.modifySlot index fun s => { s with next := next' }).Segment prev order next' := by
  rcases List.eq_nil_or_concat' order with rfl | ⟨before, ⟨last, entry⟩, rfl⟩
  · cases hlast
  · obtain rfl : last = index := by simpa using hlast
    have hnotMem : last ∉ before.map (·.1) := by simpa using (distinct_split distinct).1
    rcases append_iff.1 h with ⟨hbefore, hslot, -⟩
    refine append_iff.2 ⟨hbefore.modifySlot_of_notMem _ hnotMem, ?_, trivial⟩
    rw [slot?_modifySlot, if_pos rfl, hslot]
    rfl

theorem setPrev (h : r.Segment prev order next) (distinct : (order.map (·.1)).Nodup)
    (hfirst : firstSlot order = some index) (prev' : Option Nat) :
    (r.modifySlot index fun s => { s with prev := prev' }).Segment prev' order next := by
  cases order with
  | nil => cases hfirst
  | cons visited rest =>
      obtain rfl : visited.1 = index := by simpa using hfirst
      have hnotMem : visited.1 ∉ rest.map (·.1) := (List.nodup_cons.1 distinct).1
      refine ⟨?_, h.2.modifySlot_of_notMem _ hnotMem⟩
      rw [slot?_modifySlot, if_pos rfl, h.1]
      rfl

/-- A walk along a segment that ends the list reads it, as far as the bound allows. -/
theorem walk (h : r.Segment prev order none) (bound : Nat) :
    r.walk bound (firstSlot order) = order.take bound := by
  induction order generalizing prev bound with
  | nil => cases bound <;> rfl
  | cons visited rest ih =>
      cases bound with
      | zero => rfl
      | succ bound =>
          have hslot := h.1
          rw [Option.or_none] at hslot
          simp [Recency.walk, hslot, ih h.2 bound]

end Segment

/-! ## Links between the ends -/

/-- The links run through the slots of `order`, from the head to the tail and back. -/
structure Chained (r : Recency α) (order : List (Nat × α)) : Prop where
  distinct : (order.map (·.1)).Nodup
  segment : r.Segment none order none
  head : r.head = firstSlot order
  tail : r.tail = lastSlot order

/-- First half of unlinking: the slot before the gap, or else the head, points on to the slot after. -/
def redirectNext (r : Recency α) (prev next : Option Nat) : Recency α :=
  match prev.filter r.isUsed with
  | some p => r.modifySlot p fun s => { s with next := next }
  | none => { r with head := next }

/-- Second half of unlinking: the slot after the gap, or else the tail, points back to the one before. -/
def redirectPrev (r : Recency α) (prev next : Option Nat) : Recency α :=
  match next.filter r.isUsed with
  | some n => r.modifySlot n fun s => { s with prev := prev }
  | none => { r with tail := prev }

theorem unlink_eq {prev next : Option Nat} (h : r.slot? index = some ⟨entry, prev, next⟩) :
    r.unlink index = (r.redirectNext prev next).redirectPrev prev next := by
  rw [unlink, h]
  rfl

section Redirect

variable {prev next : Option Nat} {order : List (Nat × α)}

theorem relinked_redirectNext (r : Recency α) (prev next : Option Nat) :
    Relinked r (r.redirectNext prev next) := by
  unfold redirectNext
  split
  · exact .modifySlot _ _ _
  · exact ⟨rfl, rfl, rfl, fun _ => rfl⟩

theorem relinked_redirectPrev (r : Recency α) (prev next : Option Nat) :
    Relinked r (r.redirectPrev prev next) := by
  unfold redirectPrev
  split
  · exact .modifySlot _ _ _
  · exact ⟨rfl, rfl, rfl, fun _ => rfl⟩

theorem relinked_unlink (r : Recency α) (index : Nat) : Relinked r (r.unlink index) := by
  cases hslot : r.slot? index with
  | none =>
      rw [unlink, hslot]
      exact .refl r
  | some linked =>
      rw [unlink_eq hslot]
      exact (relinked_redirectNext _ _ _).trans (relinked_redirectPrev _ _ _)

theorem relinked_linkFront (r : Recency α) (index : Nat) : Relinked r (r.linkFront index) := by
  unfold linkFront
  cases r.head with
  | none => exact ⟨rfl, rfl, rfl, fun _ => rfl⟩
  | some head =>
      have h := Relinked.modifySlot r head fun s => { s with prev := some index }
      exact ⟨h.size, h.free, h.len, h.used⟩

theorem relinked_moveToFront (r : Recency α) (index : Nat) : Relinked r (r.moveToFront index) := by
  unfold moveToFront
  split
  · exact .refl r
  · exact ((relinked_unlink r index).trans (.modifySlot _ _ _)).trans (relinked_linkFront _ _)

theorem slot?_redirectNext (hprev : prev ≠ some index) (next : Option Nat) :
    (r.redirectNext prev next).slot? index = r.slot? index := by
  unfold redirectNext
  split
  · next p hp =>
      have hne : p ≠ index := fun heq => hprev (heq ▸ Option.eq_some_of_filter_eq_some hp)
      rw [slot?_modifySlot, if_neg hne]
  · rfl

theorem slot?_redirectPrev (hnext : next ≠ some index) (prev : Option Nat) :
    (r.redirectPrev prev next).slot? index = r.slot? index := by
  unfold redirectPrev
  split
  · next n hn =>
      have hne : n ≠ index := fun heq => hnext (heq ▸ Option.eq_some_of_filter_eq_some hn)
      rw [slot?_modifySlot, if_neg hne]
  · rfl

/-- The part before a gap is linked to what follows the gap. -/
theorem Segment.redirectNext {before : List (Nat × α)} (h : r.Segment none before prev)
    (distinct : (before.map (·.1)).Nodup) (hhead : r.head = (firstSlot before).or prev)
    (next : Option Nat) :
    (r.redirectNext (lastSlot before) next).Segment none before next ∧
      (r.redirectNext (lastSlot before) next).head = (firstSlot before).or next ∧
      (r.redirectNext (lastSlot before) next).tail = r.tail := by
  cases hlast : lastSlot before with
  | none =>
      obtain rfl : before = [] := by simpa [lastSlot] using hlast
      exact ⟨trivial, rfl, rfl⟩
  | some p =>
      rcases h.slot?_of_mem (mem_of_lastSlot hlast) with ⟨linked, hlinked⟩
      have hfirst : (firstSlot before).isSome = true := by
        cases before with
        | nil => cases hlast
        | cons visited rest => rfl
      simp only [Recency.redirectNext, Option.filter_some, isUsed_of_slot? hlinked, if_true]
      refine ⟨h.setNext distinct hlast next, ?_, rfl⟩
      rw [Option.or_of_isSome hfirst] at hhead ⊢
      exact hhead

/-- The part after a gap is linked to what precedes the gap. -/
theorem Segment.redirectPrev {after : List (Nat × α)} (h : r.Segment next after none)
    (distinct : (after.map (·.1)).Nodup) (htail : r.tail = (lastSlot after).or next)
    (prev : Option Nat) :
    (r.redirectPrev prev (firstSlot after)).Segment prev after none ∧
      (r.redirectPrev prev (firstSlot after)).tail = (lastSlot after).or prev ∧
      (r.redirectPrev prev (firstSlot after)).head = r.head := by
  cases hfirst : firstSlot after with
  | none =>
      obtain rfl : after = [] := by simpa [firstSlot] using hfirst
      exact ⟨trivial, rfl, rfl⟩
  | some n =>
      rcases h.slot?_of_mem (mem_of_firstSlot hfirst) with ⟨linked, hlinked⟩
      have hlast : (lastSlot after).isSome = true := by
        cases after with
        | nil => cases hfirst
        | cons visited rest => simp
      simp only [Recency.redirectPrev, Option.filter_some, isUsed_of_slot? hlinked, if_true]
      refine ⟨h.setPrev distinct hfirst prev, ?_, rfl⟩
      rw [Option.or_of_isSome hlast] at htail ⊢
      exact htail

end Redirect

section Chained

variable {order before after : List (Nat × α)}

theorem Chained.slot? (h : r.Chained (before ++ (index, entry) :: after)) :
    r.slot? index = some ⟨entry, lastSlot before, firstSlot after⟩ := by
  have hslot := (Segment.append_iff.1 h.segment).2.1
  rwa [Option.or_none, Option.or_none] at hslot

/-- Unlinking closes the gap that a slot leaves, and keeps the slot itself. -/
theorem Chained.unlink (h : r.Chained (before ++ (index, entry) :: after)) :
    (r.unlink index).Chained (before ++ after) ∧
      (r.unlink index).slot? index = r.slot? index := by
  rcases distinct_split h.distinct with ⟨hindex, distinct⟩
  rw [List.map_append] at hindex distinct
  have hindexBefore : index ∉ before.map (·.1) := fun hmem => hindex (List.mem_append_left _ hmem)
  have hindexAfter : index ∉ after.map (·.1) := fun hmem => hindex (List.mem_append_right _ hmem)
  rcases List.nodup_append.1 distinct with ⟨distinctBefore, distinctAfter, hdisjoint⟩
  have hprev : lastSlot before ≠ some index := fun hlast => hindexBefore (mem_of_lastSlot hlast)
  have hnext : firstSlot after ≠ some index := fun hfirst => hindexAfter (mem_of_firstSlot hfirst)
  rcases Segment.append_iff.1 h.segment with ⟨hbefore, hslot, hafter⟩
  rw [unlink_eq h.slot?]
  -- First the link from the part before the gap, which is apart from what comes after it.
  have hhead : r.head = (firstSlot before).or (some index) := by
    rw [h.head]
    simp
  rcases hbefore.redirectNext distinctBefore hhead (firstSlot after) with ⟨hbefore₁, hhead₁, htail₁⟩
  have hafter₁ : (r.redirectNext (lastSlot before) (firstSlot after)).Segment (some index) after none :=
    hafter.congr fun other hother => slot?_redirectNext
      (fun hlast => hdisjoint other (mem_of_lastSlot hlast) other hother rfl) _
  -- Then the link from the part after the gap.
  have htail : (r.redirectNext (lastSlot before) (firstSlot after)).tail =
      (lastSlot after).or (some index) := by
    rw [htail₁, h.tail, lastSlot_append, lastSlot_cons, Option.or_assoc, Option.some_or]
  rcases hafter₁.redirectPrev distinctAfter htail (lastSlot before) with ⟨hafter₂, htail₂, hhead₂⟩
  have hbefore₂ := hbefore₁.congr fun other hother => slot?_redirectPrev
      (fun hfirst => hdisjoint other hother other (mem_of_firstSlot hfirst) rfl) (lastSlot before)
  refine ⟨?_, ?_⟩
  · constructor
    case distinct => rwa [List.map_append]
    case segment =>
      rw [Segment.append_iff, Option.or_none, Option.or_none]
      exact ⟨hbefore₂, hafter₂⟩
    case head => rw [hhead₂, hhead₁, firstSlot_append]
    case tail => rw [htail₂, lastSlot_append]
  · rw [slot?_redirectPrev hnext, slot?_redirectNext hprev]

/-- A prepared slot becomes the head. -/
theorem Chained.linkFront (h : r.Chained order) (hslot : r.slot? index = some ⟨entry, none, r.head⟩)
    (hindex : index ∉ order.map (·.1)) : (r.linkFront index).Chained ((index, entry) :: order) := by
  have distinct : (((index, entry) :: order).map (·.1)).Nodup :=
    List.nodup_cons.2 ⟨hindex, h.distinct⟩
  rw [h.head] at hslot
  unfold Recency.linkFront
  cases hfirst : r.head with
  -- The slot is the whole list.
  | none =>
      obtain rfl : order = [] := by simpa [h.head, firstSlot] using hfirst
      have htail : r.tail = none := h.tail
      exact ⟨distinct, ⟨hslot, trivial⟩, rfl, by simp [htail]⟩
  -- The former head points back to the slot, which is not linked yet and stays as it is.
  | some head =>
      have hhead : firstSlot order = some head := h.head.symm.trans hfirst
      have hne : head ≠ index := fun heq => hindex (heq ▸ mem_of_firstSlot hhead)
      have hmodified := h.segment.setPrev h.distinct hhead (some index)
      refine ⟨distinct, ⟨?_, hmodified.congr fun _ _ => rfl⟩, rfl, ?_⟩
      · rw [Option.or_none, ← hslot]
        exact (slot?_modifySlot _ _ _ _).trans (if_neg hne)
      · simp [Recency.modifySlot, h.tail]

/-- A linked slot becomes the head. -/
theorem Chained.moveToFront (h : r.Chained (before ++ (index, entry) :: after)) :
    (r.moveToFront index).Chained ((index, entry) :: (before ++ after)) := by
  have hused := isUsed_of_slot? h.slot?
  have hfirst : r.head = (firstSlot before).or (some index) := by
    rw [h.head]
    simp
  unfold Recency.moveToFront
  split
  -- The head stays where it is: there is nothing before it.
  · next hfront =>
      cases before with
      | nil => exact h
      | cons visited rest =>
          obtain rfl : visited.1 = index := by simpa [hused, hfirst] using hfront
          exact absurd h.distinct (by simp)
  · rcases h.unlink with ⟨hchained, hslot⟩
    have hnotMem := (distinct_split h.distinct).1
    let prepare : Linked α → Linked α := fun s => { s with prev := none, next := (r.unlink index).head }
    have hprepared : ((r.unlink index).modifySlot index prepare).Chained (before ++ after) :=
      ⟨hchained.distinct, hchained.segment.modifySlot_of_notMem _ hnotMem, hchained.head,
        hchained.tail⟩
    have hready : ((r.unlink index).modifySlot index prepare).slot? index =
        some ⟨entry, none, ((r.unlink index).modifySlot index prepare).head⟩ := by
      rw [slot?_modifySlot, if_pos rfl, hslot, h.slot?]
      rfl
    exact hprepared.linkFront hready hnotMem

end Chained

/-! ## Lists -/

/-- The slots to be recycled are empty. -/
structure Spare (r : Recency α) : Prop where
  distinct : r.free.Nodup
  empty : ∀ index ∈ r.free, index < r.slots.size ∧ r.slot? index = none

theorem Spare.relinked (h : r.Spare) (hrelinked : Relinked r r') : r'.Spare where
  distinct := hrelinked.free ▸ h.distinct
  empty := by
    intro index hindex
    rw [hrelinked.free] at hindex
    rcases h.empty index hindex with ⟨hlt, hempty⟩
    have hunused : r'.isUsed index = false := by
      rw [hrelinked.used, isUsed, hempty]
      rfl
    exact ⟨hrelinked.size ▸ hlt, by simpa [isUsed] using hunused⟩

/-- The list is chained in an order, whose length it knows. -/
structure Lists (r : Recency α) (order : List (Nat × α)) : Prop extends r.Chained order where
  spare : r.Spare
  len : r.len = order.length

namespace Lists

variable {order before after : List (Nat × α)}

theorem empty : (.empty : Recency α).Lists [] :=
  ⟨⟨List.nodup_nil, trivial, rfl, rfl⟩, ⟨List.nodup_nil, by simp [Recency.empty]⟩, rfl⟩

/-- Linked slots are distinct slots of the arena, so a walk as long as the arena reads them all. -/
theorem length_le (h : r.Lists order) : order.length ≤ r.slots.size := by
  have hsub : order.map (·.1) ⊆ List.range r.slots.size := by
    intro index hindex
    rcases h.segment.slot?_of_mem hindex with ⟨linked, hlinked⟩
    exact List.mem_range.2 (lt_size_of_slot? hlinked)
  simpa using (List.subperm_of_subset h.distinct hsub).length_le

theorem toList (h : r.Lists order) : r.toList = order.map (·.2) := by
  rw [Recency.toList, h.head, h.segment.walk, List.take_of_length_le h.length_le]

theorem find? (h : r.Lists order) (depth : Nat) (condition : α → Bool) :
    r.find? depth condition = (order.take depth).find? fun visited => condition visited.2 := by
  have htake : order.take (min depth r.slots.size) = order.take depth := by
    rw [← List.take_take, List.take_of_length_le h.length_le]
  rw [Recency.find?, h.head, h.segment.walk, htake]

theorem moveToFront (h : r.Lists (before ++ (index, entry) :: after)) :
    (r.moveToFront index).Lists ((index, entry) :: (before ++ after)) := by
  have hrelinked := relinked_moveToFront r index
  refine ⟨h.toChained.moveToFront, h.spare.relinked hrelinked, ?_⟩
  rw [hrelinked.len, h.len]
  simp
  omega

/-- A new entry takes an empty slot, which is none of the linked ones. -/
theorem allocate (h : r.Lists order) {linked : Linked α}
    (hallocate : r.allocate linked = (index, r')) :
    r'.Lists order ∧ r'.slot? index = some linked ∧ index ∉ order.map (·.1) ∧ r'.head = r.head := by
  -- Linked slots are not empty, so they keep what they hold.
  have notMem : ∀ {index}, r.slot? index = none → index ∉ order.map (·.1) := by
    intro index hempty hindex
    rcases h.segment.slot?_of_mem hindex with ⟨found, hfound⟩
    cases hempty.symm.trans hfound
  have chained : ∀ {r' : Recency α} {index : Nat}, r.slot? index = none → r'.head = r.head →
      r'.tail = r.tail → (∀ other, index ≠ other → r'.slot? other = r.slot? other) →
        r'.Chained order := by
    intro r' index hempty hhead htail hsame
    refine ⟨h.distinct, h.segment.congr ?_, hhead.trans h.head, htail.trans h.tail⟩
    intro other hother
    exact hsame other fun heq => notMem hempty (heq ▸ hother)
  unfold Recency.allocate at hallocate
  split at hallocate
  · next slot free hfree =>
      obtain ⟨rfl, rfl⟩ := Prod.mk.inj hallocate
      have hspare := h.spare.distinct
      rw [hfree, List.nodup_cons] at hspare
      rcases h.spare.empty slot (by simp [hfree]) with ⟨hlt, hempty⟩
      have hsame : ∀ other, slot ≠ other →
          ((r.slots.set! slot (some linked))[other]?).join = r.slot? other :=
        fun other hne => (join_getElem?_set! _ _ hlt other).trans (if_neg hne)
      refine ⟨⟨chained hempty rfl rfl hsame, ⟨hspare.2, ?_⟩, h.len⟩, ?_, notMem hempty, rfl⟩
      · intro other hother
        have hne : slot ≠ other := fun heq => hspare.1 (heq ▸ hother)
        rcases h.spare.empty other (by simp [hfree, hother]) with ⟨hother, hunused⟩
        exact ⟨by simpa using hother, (hsame other hne).trans hunused⟩
      · exact (join_getElem?_set! _ _ hlt slot).trans (if_pos rfl)
  · next hfree =>
      obtain ⟨rfl, rfl⟩ := Prod.mk.inj hallocate
      have hempty : r.slot? r.slots.size = none := by simp [slot?]
      have hsame : ∀ other, r.slots.size ≠ other →
          ((r.slots.push (some linked))[other]?).join = r.slot? other := by
        intro other hne
        rw [Array.getElem?_push, if_neg (Ne.symm hne)]
        rfl
      refine ⟨⟨chained hempty rfl rfl hsame, ⟨h.spare.distinct, ?_⟩, h.len⟩, ?_, notMem hempty, rfl⟩
      · simp [hfree]
      · simp [slot?]

theorem pushFront (h : r.Lists order) (entry : α) :
    ∃ index, (r.pushFront entry).Lists ((index, entry) :: order) := by
  rcases hallocate : r.allocate ⟨entry, none, r.head⟩ with ⟨index, r'⟩
  rcases h.allocate hallocate with ⟨hlists, hslot, hnotMem, hhead⟩
  rw [← hhead] at hslot
  have hchained := hlists.toChained.linkFront hslot hnotMem
  have hrelinked := relinked_linkFront r' index
  have hspare := hlists.spare.relinked hrelinked
  have hlen : (r'.linkFront index).len = order.length := hrelinked.len.trans hlists.len
  have hpush : r.pushFront entry =
      { r'.linkFront index with len := (r'.linkFront index).len + 1 } := by
    rw [Recency.pushFront, hallocate]
  rw [hpush]
  refine ⟨index, ⟨hchained.distinct, hchained.segment.congr ?_, hchained.head, hchained.tail⟩, ?_, ?_⟩
  · intro other _
    rfl
  · exact ⟨hspare.distinct, hspare.empty⟩
  · show (r'.linkFront index).len + 1 = (order.length + 1)
    rw [hlen]

/-- The last entry leaves its slot to be recycled next. -/
theorem popBack (h : r.Lists (order ++ [(index, entry)])) :
    ∃ r', r.popBack = some r' ∧ r'.Lists order ∧ r'.free = index :: r.free ∧
      r'.slots.size = r.slots.size := by
  have htail : r.tail = some index := by simp [h.tail]
  have hslot := h.slot?
  have hchained := h.toChained.unlink.1
  have hrelinked := relinked_unlink r index
  rw [List.append_nil] at hchained
  have hlt : index < (r.unlink index).slots.size := hrelinked.size ▸ lt_size_of_slot? hslot
  have hfreed : ∀ other, (((r.unlink index).slots.set! index none)[other]?).join =
      if index = other then none else (r.unlink index).slot? other :=
    join_getElem?_set! _ _ hlt
  have hspare := h.spare.relinked hrelinked
  have hnotMem : index ∉ order.map (·.1) := by simpa using (distinct_split h.distinct).1
  have hnotFree : index ∉ r.free := by
    intro hfree
    cases (h.spare.empty index hfree).2.symm.trans hslot
  have hpop : r.popBack = some { r.unlink index with
      slots := (r.unlink index).slots.set! index none
      free := index :: (r.unlink index).free
      len := (r.unlink index).len - 1 } := by
    rw [Recency.popBack, htail]
  refine ⟨_, hpop, ⟨⟨hchained.distinct, ?_, hchained.head, hchained.tail⟩, ⟨?_, ?_⟩, ?_⟩,
    congrArg (index :: ·) hrelinked.free, by simpa using hrelinked.size⟩
  -- The slots that stay linked are not the one that is emptied.
  · apply hchained.segment.congr
    intro other hother
    have hne : index ≠ other := fun heq => hnotMem (heq ▸ hother)
    exact (hfreed other).trans (if_neg hne)
  -- That one is recycled for the first time: it was linked until now.
  · exact List.nodup_cons.2 ⟨hrelinked.free ▸ hnotFree, hspare.distinct⟩
  · intro other hother
    rcases List.mem_cons.1 hother with rfl | hother
    · exact ⟨by simpa using hlt, (hfreed other).trans (if_pos rfl)⟩
    · rcases hspare.empty other hother with ⟨hlt, hempty⟩
      refine ⟨by simpa using hlt, (hfreed other).trans ?_⟩
      split
      · rfl
      · exact hempty
  · show (r.unlink index).len - 1 = order.length
    rw [hrelinked.len, h.len, List.length_append, List.length_singleton, Nat.add_sub_cancel]

/-- Entries are dropped from the end of the list, until there are none left; their slots are recycled in
the order in which they were linked. -/
theorem dropBack (h : r.Lists order) (count : Nat) :
    (r.dropBack count).1.Lists (order.take (order.length - count)) ∧
      (r.dropBack count).2 = min count order.length ∧
      (r.dropBack count).1.free = (order.drop (order.length - count)).map (·.1) ++ r.free ∧
      (r.dropBack count).1.slots.size = r.slots.size := by
  induction count generalizing r order with
  | zero => simpa [Recency.dropBack] using h
  | succ count ih =>
      rcases List.eq_nil_or_concat' order with rfl | ⟨before, ⟨last, entry⟩, rfl⟩
      · have htail : r.tail = none := h.tail
        have hpop : r.popBack = none := by rw [Recency.popBack, htail]
        simpa [Recency.dropBack, hpop] using h
      · rcases h.popBack with ⟨r', hpop, hlists, hfree, hsize⟩
        rcases ih hlists with ⟨hdropped, hcount, hfree', hsize'⟩
        have hlength : (before ++ [(last, entry)]).length - (count + 1) = before.length - count := by
          simp
        simp only [Recency.dropBack, hpop]
        rw [hlength, List.take_append_of_le_length (Nat.sub_le _ _),
          List.drop_append_of_le_length (Nat.sub_le _ _), hcount, hfree', hfree]
        refine ⟨hdropped, ?_, ?_, hsize'.trans hsize⟩
        · simp
        · simp

theorem truncate (h : r.Lists order) (keep : Nat) :
    (r.truncate keep).1.Lists (order.take keep) ∧
      (r.truncate keep).2 = order.length - keep := by
  rcases h.dropBack (r.len - keep) with ⟨hlists, hcount, -, -⟩
  have htake : order.take (order.length - (r.len - keep)) = order.take keep := by
    rw [h.len]
    rcases Nat.le_total keep order.length with hle | hle
    · rw [Nat.sub_sub_self hle]
    · rw [Nat.sub_eq_zero_of_le hle, List.take_of_length_le hle, Nat.sub_zero, List.take_length]
  refine ⟨htake ▸ hlists, ?_⟩
  rw [Recency.truncate, hcount, h.len]
  omega

end Lists

end Recency
end QueryPlan
