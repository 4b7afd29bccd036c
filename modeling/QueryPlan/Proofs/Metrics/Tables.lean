import Mathlib.Algebra.GroupWithZero.Nat
import Mathlib.Algebra.Order.BigOperators.Group.List
import Mathlib.Data.String.Basic
import QueryPlan.NameTable

/-!
# Tables — what changing one entry does to a table sorted by name

Changing an entry keeps the table sorted, changes what is found under that name and under no other, and
changes a sum over the table by what it changes the weight of that entry.  A sorted table is determined by
what is found in it, which is why equal contents are equal tables.
-/

namespace QueryPlan.NameTable

variable {α : Type}

/-- In strictly ascending order of names. -/
def Sorted (table : NameTable α) : Prop :=
  table.Pairwise fun a b => a.1 < b.1

section Update

variable {init : α} {change : α → α} {name : String} {table : NameTable α}

theorem mem_names_update (other : String) :
    other ∈ (update init change name table).map Prod.fst ↔
      other = name ∨ other ∈ table.map Prod.fst := by
  induction table with
  | nil => simp [update]
  | cons entry rest ih =>
    rw [update]
    split
    case isTrue same =>
      subst same
      simp
    case isFalse _ =>
      split
      · simp
      · simp only [List.map_cons, List.mem_cons, ih]
        tauto

theorem Sorted.update (sorted : Sorted table) : Sorted (update init change name table) := by
  induction table with
  | nil => exact List.pairwise_singleton _ _
  | cons entry rest ih =>
    obtain ⟨least, behind⟩ := List.pairwise_cons.1 sorted
    rw [NameTable.update]
    split
    · exact List.pairwise_cons.2 ⟨least, behind⟩
    case isFalse differ =>
      split
      case isTrue before =>
        refine List.pairwise_cons.2 ⟨?_, sorted⟩
        intro other member
        rcases List.mem_cons.1 member with rfl | later
        · exact before
        · exact before.trans (least other later)
      case isFalse after =>
        refine List.pairwise_cons.2 ⟨?_, ih behind⟩
        intro other member
        have named : other.1 ∈ (NameTable.update init change name rest).map Prod.fst :=
          List.mem_map_of_mem member
        rcases (mem_names_update other.1).1 named with same | later
        · rw [same]
          exact lt_of_le_of_ne (not_lt.1 after) (Ne.symm differ)
        · obtain ⟨found, later, same⟩ := List.mem_map.1 later
          exact same ▸ least found later

/-- The first entry answers for its own name only. -/
theorem lookup_entry (entry : String × α) (other : String) :
    (entry :: table).lookup other =
      if other = entry.1 then some entry.2 else table.lookup other := by
  rw [List.lookup_cons]
  split <;> simp_all

theorem isSome_lookup (name : String) :
    (table.lookup name).isSome ↔ name ∈ table.map Prod.fst := by
  induction table with
  | nil => simp
  | cons entry rest ih =>
    rw [lookup_entry, List.map_cons, List.mem_cons, ← ih]
    split <;> simp_all

/-- A name before all others is not in the table. -/
theorem lookup_of_lt (below : ∀ entry ∈ table, name < entry.1) : table.lookup name = none := by
  induction table with
  | nil => rfl
  | cons entry rest ih =>
    rw [lookup_entry, if_neg (below entry List.mem_cons_self).ne]
    exact ih fun other member => below other (List.mem_cons_of_mem _ member)

theorem Sorted.lookup_of_lt_first {entry : String × α} (sorted : Sorted (entry :: table))
    (before : name < entry.1) : (entry :: table).lookup name = none := by
  apply lookup_of_lt
  intro other member
  rcases List.mem_cons.1 member with rfl | later
  · exact before
  · exact before.trans ((List.pairwise_cons.1 sorted).1 other later)

theorem lookup_update (sorted : Sorted table) (other : String) :
    (update init change name table).lookup other =
      if other = name then some (change ((table.lookup name).getD init)) else table.lookup other := by
  induction table with
  | nil => rw [NameTable.update, lookup_entry]; rfl
  | cons entry rest ih =>
    rw [NameTable.update]
    split
    case isTrue same =>
      subst same
      rw [lookup_entry, lookup_entry, lookup_entry, if_pos rfl, Option.getD_some]
      split <;> rfl
    case isFalse differ =>
      split
      case isTrue before => rw [lookup_entry, sorted.lookup_of_lt_first before, Option.getD_none]
      case isFalse _ =>
        rw [lookup_entry, ih (List.pairwise_cons.1 sorted).2, lookup_entry, lookup_entry,
          if_neg differ]
        by_cases found : other = entry.1
        · have apart : other ≠ name := fun same => differ (same ▸ found)
          rw [if_pos found, if_neg apart, if_pos found]
        · rw [if_neg found, if_neg found]

/-- A sum over the table changes by what the weight of the changed entry changes. -/
theorem sum_update (sorted : Sorted table) (change : α → α) (name : String) (weight : α → Nat)
    (weightless : weight init = 0) :
    ((update init change name table).map fun entry => weight entry.2).sum +
        weight ((table.lookup name).getD init) =
      (table.map fun entry => weight entry.2).sum +
        weight (change ((table.lookup name).getD init)) := by
  induction table with
  | nil => simp [NameTable.update, weightless]
  | cons entry rest ih =>
    rw [NameTable.update]
    split
    case isTrue same =>
      rw [lookup_entry, if_pos same, Option.getD_some]
      simp only [List.map_cons, List.sum_cons]
      omega
    case isFalse differ =>
      split
      case isTrue before =>
        rw [sorted.lookup_of_lt_first before, Option.getD_none, weightless]
        simp only [List.map_cons, List.sum_cons]
        omega
      case isFalse _ =>
        rw [lookup_entry, if_neg differ, List.map_cons, List.map_cons, List.sum_cons, List.sum_cons,
          Nat.add_assoc, ih (List.pairwise_cons.1 sorted).2, Nat.add_assoc]

end Update

theorem Sorted.nodup {table : NameTable α} (sorted : Sorted table) : table.Nodup :=
  List.Pairwise.imp (fun before same => absurd (same ▸ before) (lt_irrefl _)) sorted

theorem Sorted.mem_iff {table : NameTable α} (sorted : Sorted table) (name : String) (a : α) :
    (name, a) ∈ table ↔ table.lookup name = some a := by
  induction table with
  | nil => simp
  | cons entry rest ih =>
    obtain ⟨least, behind⟩ := List.pairwise_cons.1 sorted
    rw [List.mem_cons, ih behind, lookup_entry]
    by_cases same : name = entry.1
    · have absent : rest.lookup name = none :=
        lookup_of_lt fun other later => same ▸ least other later
      rw [absent, if_pos same]
      simp [same, Prod.ext_iff, eq_comm]
    · simp [same, Prod.ext_iff]

theorem weight_le_sum {table : NameTable α} (sorted : Sorted table) (name : String) {init : α}
    (weight : α → Nat) (weightless : weight init = 0) :
    weight ((table.lookup name).getD init) ≤ (table.map fun entry => weight entry.2).sum := by
  cases found : table.lookup name with
  | none =>
    rw [Option.getD_none, weightless]
    exact Nat.zero_le _
  | some a =>
    have member : weight a ∈ table.map fun entry => weight entry.2 :=
      List.mem_map.2 ⟨(name, a), (sorted.mem_iff name a).2 found, rfl⟩
    exact List.le_sum_of_mem member

theorem Sorted.ext {first second : NameTable α} (left : Sorted first) (right : Sorted second)
    (same : ∀ name, first.lookup name = second.lookup name) : first = second := by
  have perm : first.Perm second := by
    rw [List.perm_ext_iff_of_nodup left.nodup right.nodup]
    rintro ⟨name, a⟩
    rw [left.mem_iff, right.mem_iff, same]
  apply perm.eq_of_pairwise _ left right
  intro a b _ _ before after
  exact absurd (before.trans after) (lt_irrefl _)

end QueryPlan.NameTable
