/-!
# Recency — a recency list over an arena of slots

Entries are linked from the most to the least recently used through slot indices.  Freed slots are
recycled, so an index keeps naming its entry for as long as the entry is linked.

Walking the list follows `next` links and is bounded by the number of slots, which a list without
cycles never exceeds.
-/

namespace QueryPlan

structure Linked (α : Type) where
  entry : α
  prev : Option Nat
  next : Option Nat

/-- A doubly linked recency list; `free` holds the empty slots, the next one to be used first. -/
structure Recency (α : Type) where
  slots : Array (Option (Linked α))
  free : List Nat
  head : Option Nat
  tail : Option Nat
  len : Nat

namespace Recency

variable {α : Type}

def empty : Recency α :=
  ⟨#[], [], none, none, 0⟩

def slot? (r : Recency α) (index : Nat) : Option (Linked α) :=
  (r.slots[index]?).join

def isUsed (r : Recency α) (index : Nat) : Bool :=
  (r.slot? index).isSome

def modifySlot (r : Recency α) (index : Nat) (change : Linked α → Linked α) : Recency α :=
  { r with slots := r.slots.modify index (·.map change) }

/-- Entries with their slots, following links from a slot, at most as many as a bound says. -/
def walk (r : Recency α) : Nat → Option Nat → List (Nat × α)
  | 0, _ => []
  | _, none => []
  | bound + 1, some index =>
      match r.slot? index with
      | some slot => (index, slot.entry) :: r.walk bound slot.next
      | none => []

/-- Entries from the most to the least recently used. -/
def toList (r : Recency α) : List α :=
  (r.walk r.slots.size r.head).map (·.2)

/-- The most recently used entry that satisfies a condition, among the first few. -/
def find? (r : Recency α) (depth : Nat) (condition : α → Bool) : Option (Nat × α) :=
  (r.walk (min depth r.slots.size) r.head).find? fun e => condition e.2

/-- Let the neighbours of a slot point past it. -/
def unlink (r : Recency α) (index : Nat) : Recency α :=
  match r.slot? index with
  | none => r
  | some ⟨_, prev, next⟩ =>
      let r :=
        match prev.filter r.isUsed with
        | some p => r.modifySlot p fun s => { s with next := next }
        | none => { r with head := next }
      match next.filter r.isUsed with
      | some n => r.modifySlot n fun s => { s with prev := prev }
      | none => { r with tail := prev }

def linkFront (r : Recency α) (index : Nat) : Recency α :=
  let r :=
    match r.head with
    | some head => r.modifySlot head fun s => { s with prev := some index }
    | none => r
  { r with head := some index, tail := r.tail.or (some index) }

/-- Put an entry into an empty slot, a recycled one if possible. -/
def allocate (r : Recency α) (slot : Linked α) : Nat × Recency α :=
  match r.free with
  | index :: free => (index, { r with slots := r.slots.set! index (some slot), free })
  | [] => (r.slots.size, { r with slots := r.slots.push (some slot) })

def pushFront (r : Recency α) (entry : α) : Recency α :=
  let (index, r) := r.allocate ⟨entry, none, r.head⟩
  let r := r.linkFront index
  { r with len := r.len + 1 }

def moveToFront (r : Recency α) (index : Nat) : Recency α :=
  if r.head = some index ∨ !r.isUsed index then
    r
  else
    let r := r.unlink index
    let r := r.modifySlot index fun s => { s with prev := none, next := r.head }
    r.linkFront index

def popBack (r : Recency α) : Option (Recency α) :=
  match r.tail with
  | none => none
  | some tail =>
      let r := r.unlink tail
      some { r with slots := r.slots.set! tail none, free := tail :: r.free, len := r.len - 1 }

/-- Drop least recently used entries, as many as a count says; returns how many went. -/
def dropBack (r : Recency α) : Nat → Recency α × Nat
  | 0 => (r, 0)
  | count + 1 =>
      match r.popBack with
      | none => (r, 0)
      | some r =>
          let (r, dropped) := r.dropBack count
          (r, dropped + 1)

def truncate (r : Recency α) (keep : Nat) : Recency α × Nat :=
  r.dropBack (r.len - keep)

end Recency

end QueryPlan
