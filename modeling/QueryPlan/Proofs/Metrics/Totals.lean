import QueryPlan.Metrics.Counters
import QueryPlan.Proofs.Metrics.Tables

/-!
# Totals — counters are saturated sums of what their events contribute

Every counter is a sum that stops at a limit.  Stopping early loses nothing: a saturated counter that goes
on counting is the saturated sum of everything it was given, so it does not matter when it stopped nor in
which order the events came.  Overall counters and those of single elements stop at different moments, and
still the overall one is the saturated sum of the others, because an element that has stopped is at the
limit by itself.
-/

namespace QueryPlan

/-! ## Counting up to a limit -/

namespace Saturating

variable {limit : Nat}

theorem add_zero (counter : Saturating limit) : counter.add 0 = counter := by
  obtain ⟨value, below⟩ := counter
  simp [add, clamp, below]

theorem add_add (counter : Saturating limit) (a b : Nat) :
    (counter.add a).add b = counter.add (a + b) := by
  simp only [add, clamp, mk.injEq]
  omega

theorem raise_zero (counter : Saturating limit) : counter.raise 0 = counter := by
  obtain ⟨value, below⟩ := counter
  simp [raise, clamp, below]

theorem raise_raise (counter : Saturating limit) (a b : Nat) :
    (counter.raise a).raise b = counter.raise (max a b) := by
  simp only [raise, clamp, mk.injEq]
  omega

theorem value_zero_add (amount : Nat) : ((zero : Saturating limit).add amount).value = min limit amount := by
  simp [zero, add, clamp]

theorem value_zero_raise (amount : Nat) :
    ((zero : Saturating limit).raise amount).value = min limit amount := by
  simp [zero, raise, clamp]

end Saturating

/-! ## What an event contributes -/

/-- The overall counters. -/
inductive OperationTotal where
  | cacheHits
  | cacheMisses
  | cacheDiscarded
  | cacheBypassed
  | cacheTruncated
  | plansCompiled
  | compileFailures
  | queries
  | rowsRead

/-- The counters that are kept for each element type. -/
inductive ElementTotal where
  | plansCompiled
  | queries
  | rowsRead

/-- The overall counter of the same thing. -/
def ElementTotal.overall : ElementTotal → OperationTotal
  | plansCompiled => .plansCompiled
  | queries => .queries
  | rowsRead => .rowsRead

def Operations.get (operations : Operations) : OperationTotal → Counter
  | .cacheHits => operations.cacheHits
  | .cacheMisses => operations.cacheMisses
  | .cacheDiscarded => operations.cacheDiscarded
  | .cacheBypassed => operations.cacheBypassed
  | .cacheTruncated => operations.cacheTruncated
  | .plansCompiled => operations.plansCompiled
  | .compileFailures => operations.compileFailures
  | .queries => operations.queries
  | .rowsRead => operations.rowsRead

def ElementCounters.get (counters : ElementCounters) : ElementTotal → Counter
  | .plansCompiled => counters.plansCompiled
  | .queries => counters.queries
  | .rowsRead => counters.rowsRead

theorem Operations.ext_get {a b : Operations} (same : ∀ total, a.get total = b.get total) : a = b := by
  cases a
  cases b
  congr
  exacts [same .cacheHits, same .cacheMisses, same .cacheDiscarded, same .cacheBypassed,
    same .cacheTruncated, same .plansCompiled, same .compileFailures, same .queries, same .rowsRead]

theorem ElementCounters.ext_get {a b : ElementCounters} (same : ∀ total, a.get total = b.get total) :
    a = b := by
  cases a
  cases b
  congr
  exacts [same .plansCompiled, same .queries, same .rowsRead]

namespace Event

/-- What an event adds to an overall counter. -/
def adds : Event → OperationTotal → Nat
  | cache .hit, .cacheHits => 1
  | cache .miss, .cacheMisses => 1
  | cache .discarded, .cacheDiscarded => 1
  | cache .bypassed, .cacheBypassed => 1
  | truncated entries, .cacheTruncated => entries
  | compiled _, .plansCompiled => 1
  | compileFailed, .compileFailures => 1
  | started _, .queries => 1
  | finished _ rows _, .rowsRead => rows
  | _, _ => 0

/-- The element type that an event is about. -/
def element? : Event → Option String
  | compiled element | started element | finished element _ _ => some element
  | cache _ | truncated _ | compileFailed => none

/-- What an event adds to a counter of an element type. -/
def addsTo (e : Event) (element : String) (total : ElementTotal) : Nat :=
  if e.element? = some element then e.adds total.overall else 0

/-- The duration that an event reports. -/
def elapsed? : Event → Option Nat
  | finished _ _ elapsed => some elapsed
  | _ => none

/-- The amounts of an event are 64-bit numbers. -/
def Fits : Event → Prop
  | truncated entries => entries < 2 ^ 64
  | finished _ rows elapsed => rows < 2 ^ 64 ∧ elapsed < 2 ^ 64
  | _ => True

end Event

/-- The durations that events report. -/
def durations (events : List Event) : List Nat :=
  events.filterMap Event.elapsed?

/-! ## One event -/

namespace Counters

theorem ext_parts {a b : Counters} (operations : a.operations = b.operations)
    (total : a.timing.total = b.timing.total) (longest : a.timing.longest = b.timing.longest)
    (elements : a.elements = b.elements) : a = b := by
  obtain ⟨_, ⟨_, _⟩, _⟩ := a
  obtain ⟨_, ⟨_, _⟩, _⟩ := b
  simp_all

/-- What an event adds to the counters of its element type. -/
def count (e : Event) (counters : ElementCounters) : ElementCounters where
  plansCompiled := counters.plansCompiled.add (e.adds .plansCompiled)
  queries := counters.queries.add (e.adds .queries)
  rowsRead := counters.rowsRead.add (e.adds .rowsRead)

/-- The counters of an element type, zero if it has none yet. -/
def element (counters : Counters) (name : String) : ElementCounters :=
  (counters.elements.lookup name).getD .zero

section Apply

variable (counters : Counters) (e : Event)

theorem get_apply (total : OperationTotal) :
    (counters.apply e).operations.get total = (counters.operations.get total).add (e.adds total) := by
  cases e with
  | cache outcome =>
    cases outcome <;> cases total <;>
      simp [apply, countLookup, Operations.get, Event.adds, Saturating.add_zero]
  | _ => cases total <;> simp [apply, Operations.get, Event.adds, Saturating.add_zero]

theorem total_apply :
    (counters.apply e).timing.total = counters.timing.total.add (e.elapsed?.getD 0) := by
  cases e <;> simp [apply, Event.elapsed?, Saturating.add_zero]

theorem longest_apply :
    (counters.apply e).timing.longest = counters.timing.longest.raise (e.elapsed?.getD 0) := by
  cases e <;> simp [apply, Event.elapsed?, Saturating.raise_zero]

theorem get_count (each : ElementCounters) (total : ElementTotal) :
    (count e each).get total = (each.get total).add (e.adds total.overall) := by
  cases total <;> rfl

theorem elements_apply :
    (counters.apply e).elements =
      match e.element? with
      | some name => NameTable.update .zero (count e) name counters.elements
      | none => counters.elements := by
  cases e with
  | cache _ | truncated _ | compileFailed => rfl
  | _ =>
    simp only [apply, updateElement, Event.element?]
    congr 1
    funext each
    simp [count, Event.adds, Saturating.add_zero]

theorem sorted_apply (sorted : NameTable.Sorted counters.elements) :
    NameTable.Sorted (counters.apply e).elements := by
  rw [elements_apply]
  split
  · exact sorted.update
  · exact sorted

theorem element_apply (sorted : NameTable.Sorted counters.elements) (name : String)
    (total : ElementTotal) :
    ((counters.apply e).element name).get total =
      ((counters.element name).get total).add (e.addsTo name total) := by
  rw [element, elements_apply, Event.addsTo]
  cases about : e.element? with
  | none => simp [element, Saturating.add_zero]
  | some touched =>
    simp only [NameTable.lookup_update sorted, Option.some.injEq]
    by_cases same : name = touched
    · subst same
      simp [get_count, element]
    · rw [if_neg same, if_neg (Ne.symm same), Saturating.add_zero, element]

theorem mem_names_apply (name : String) :
    name ∈ (counters.apply e).elements.map Prod.fst ↔
      name ∈ counters.elements.map Prod.fst ∨ e.element? = some name := by
  rw [elements_apply]
  cases about : e.element? with
  | none => simp
  | some touched =>
    rw [NameTable.mem_names_update, Option.some.injEq]
    tauto

/-- The overall counters of what is counted for elements are the saturated sums over all elements. -/
def Agree (counters : Counters) : Prop :=
  ∀ total : ElementTotal,
    (counters.operations.get total.overall).value =
      min (2 ^ 64 - 1) (counters.elements.map fun entry => (entry.2.get total).value).sum

theorem agree_apply (sorted : NameTable.Sorted counters.elements) (agree : Agree counters) :
    Agree (counters.apply e) := by
  intro total
  rw [get_apply, elements_apply]
  have before := agree total
  cases about : e.element? with
  | none =>
    have nothing : e.adds total.overall = 0 := by
      cases e with
      | cache outcome => cases outcome <;> cases total <;> rfl
      | truncated _ | compileFailed => cases total <;> rfl
      | compiled _ | started _ | finished _ _ _ => cases about
    rw [nothing, Saturating.add_zero, before]
  | some name =>
    have nothing : (ElementCounters.zero.get total).value = 0 := by cases total <;> rfl
    have changed := NameTable.sum_update sorted (count e) name (fun each => (each.get total).value)
      nothing
    have part := NameTable.weight_le_sum sorted name (fun each => (each.get total).value) nothing
    simp only [get_count, Saturating.add, Saturating.clamp, Nat.pow_eq, before] at changed part ⊢
    -- The element is below its limit, and the sums differ by what it counted, or both sums are past it.
    omega

end Apply

/-! ## All events -/

section ApplyAll

variable {counters : Counters}

theorem applyAll_cons (e : Event) (events : List Event) :
    counters.applyAll (e :: events) = (counters.apply e).applyAll events :=
  rfl

/-- What every event adds something to holds the saturated sum of what all events add. -/
theorem measure_applyAll {limit : Nat} (measure : Counters → Saturating limit) (amount : Event → Nat)
    {Valid : Counters → Prop} (keeps : ∀ counters e, Valid counters → Valid (counters.apply e))
    (step : ∀ counters e, Valid counters →
      measure (counters.apply e) = (measure counters).add (amount e))
    (valid : Valid counters) (events : List Event) :
    measure (counters.applyAll events) = (measure counters).add (events.map amount).sum := by
  induction events generalizing counters with
  | nil => exact (Saturating.add_zero _).symm
  | cons e rest ih =>
    rw [applyAll_cons, ih (keeps counters e valid), step counters e valid,
      Saturating.add_add, List.map_cons, List.sum_cons]

theorem get_applyAll (events : List Event) (total : OperationTotal) :
    (counters.applyAll events).operations.get total =
      (counters.operations.get total).add (events.map (·.adds total)).sum :=
  measure_applyAll (fun counters => counters.operations.get total) (·.adds total)
    (fun _ _ (valid : True) => valid) (fun counters e _ => get_apply counters e total) trivial events

theorem total_applyAll (events : List Event) :
    (counters.applyAll events).timing.total =
      counters.timing.total.add (events.map fun e => e.elapsed?.getD 0).sum :=
  measure_applyAll (·.timing.total) (fun e => e.elapsed?.getD 0)
    (fun _ _ (valid : True) => valid) (fun counters e _ => total_apply counters e) trivial events

theorem element_applyAll (sorted : NameTable.Sorted counters.elements) (events : List Event)
    (name : String) (total : ElementTotal) :
    ((counters.applyAll events).element name).get total =
      ((counters.element name).get total).add (events.map (·.addsTo name total)).sum :=
  measure_applyAll (fun counters => (counters.element name).get total) (·.addsTo name total)
    sorted_apply (fun counters e sorted => element_apply counters e sorted name total) sorted events

theorem longest_applyAll (events : List Event) :
    (counters.applyAll events).timing.longest =
      counters.timing.longest.raise ((durations events).max?.getD 0) := by
  induction events generalizing counters with
  | nil => exact (Saturating.raise_zero _).symm
  | cons e rest ih =>
    rw [applyAll_cons, ih, longest_apply, Saturating.raise_raise]
    congr 1
    simp only [durations]
    cases lasted : e.elapsed? with
    | none => simp [lasted]
    | some elapsed =>
      rw [List.filterMap_cons_some lasted, List.max?_cons]
      cases (rest.filterMap Event.elapsed?).max? <;> simp

theorem sorted_applyAll (sorted : NameTable.Sorted counters.elements) (events : List Event) :
    NameTable.Sorted (counters.applyAll events).elements := by
  induction events generalizing counters with
  | nil => exact sorted
  | cons e rest ih => exact ih (sorted_apply counters e sorted)

theorem agree_applyAll (sorted : NameTable.Sorted counters.elements) (agree : Agree counters)
    (events : List Event) : Agree (counters.applyAll events) := by
  induction events generalizing counters with
  | nil => exact agree
  | cons e rest ih => exact ih (sorted_apply counters e sorted) (agree_apply counters e sorted agree)

theorem mem_names_applyAll (events : List Event) (name : String) :
    name ∈ (counters.applyAll events).elements.map Prod.fst ↔
      name ∈ counters.elements.map Prod.fst ∨ ∃ e ∈ events, e.element? = some name := by
  induction events generalizing counters with
  | nil => simp [applyAll]
  | cons e rest ih =>
    rw [applyAll_cons, ih, mem_names_apply, or_assoc]
    simp

theorem sum_durations (events : List Event) :
    (events.map fun e => e.elapsed?.getD 0).sum = (durations events).sum := by
  induction events with
  | nil => rfl
  | cons e rest ih =>
    rw [List.map_cons, List.sum_cons, ih, durations, durations]
    cases lasted : e.elapsed? with
    | none => simp [lasted]
    | some elapsed => simp [List.filterMap_cons_some lasted]

end ApplyAll

/-! ## Fresh counters -/

/-- The counters that events leave. -/
def ofEvents (events : List Event) : Counters :=
  zero.applyAll events

theorem sorted_zero : NameTable.Sorted zero.elements :=
  List.Pairwise.nil

theorem agree_zero : Agree zero := by
  intro total
  cases total <;> rfl

theorem get_ofEvents (events : List Event) (total : OperationTotal) :
    (ofEvents events).operations.get total = Saturating.zero.add (events.map (·.adds total)).sum := by
  rw [ofEvents, get_applyAll]
  cases total <;> rfl

theorem total_ofEvents (events : List Event) :
    (ofEvents events).timing.total = Saturating.zero.add (durations events).sum := by
  rw [ofEvents, total_applyAll, sum_durations]
  rfl

theorem longest_ofEvents (events : List Event) :
    (ofEvents events).timing.longest = Saturating.zero.raise ((durations events).max?.getD 0) :=
  longest_applyAll events

theorem element_ofEvents (events : List Event) (name : String) (total : ElementTotal) :
    ((ofEvents events).element name).get total =
      Saturating.zero.add (events.map (·.addsTo name total)).sum := by
  rw [ofEvents, element_applyAll sorted_zero]
  cases total <;> rfl

theorem sorted_ofEvents (events : List Event) : NameTable.Sorted (ofEvents events).elements :=
  sorted_applyAll sorted_zero events

theorem mem_names_ofEvents (events : List Event) (name : String) :
    name ∈ (ofEvents events).elements.map Prod.fst ↔ ∃ e ∈ events, e.element? = some name := by
  rw [ofEvents, mem_names_applyAll]
  simp [zero]

section Reordered

variable {events reordered : List Event} (perm : events.Perm reordered)

include perm

theorem durations_perm : (durations reordered).Perm (durations events) :=
  perm.symm.filterMap _

theorem max_durations_perm :
    (durations reordered).max?.getD 0 = (durations events).max?.getD 0 := by
  simpa [List.foldl_max] using (durations_perm perm).foldl_eq (f := max) 0

theorem elements_perm : (ofEvents reordered).elements = (ofEvents events).elements := by
  apply (sorted_ofEvents reordered).ext (sorted_ofEvents events)
  intro name
  have present : ((ofEvents reordered).elements.lookup name).isSome ↔
      ((ofEvents events).elements.lookup name).isSome := by
    rw [NameTable.isSome_lookup, NameTable.isSome_lookup, mem_names_ofEvents, mem_names_ofEvents]
    exact exists_congr fun e => and_congr_left' perm.symm.mem_iff
  have counted : (ofEvents reordered).element name = (ofEvents events).element name := by
    apply ElementCounters.ext_get
    intro total
    rw [element_ofEvents, element_ofEvents, (perm.map _).sum_eq]
  simp only [element] at counted
  cases left : (ofEvents reordered).elements.lookup name <;>
    cases right : (ofEvents events).elements.lookup name <;>
    simp_all

/-- Neither a counter nor the table of elements shows the order of the events. -/
theorem ofEvents_perm : ofEvents reordered = ofEvents events := by
  apply ext_parts
  · apply Operations.ext_get
    intro total
    rw [get_ofEvents, get_ofEvents, (perm.map _).sum_eq]
  · rw [total_ofEvents, total_ofEvents, (durations_perm perm).sum_eq]
  · rw [longest_ofEvents, longest_ofEvents, max_durations_perm perm]
  · exact elements_perm perm

end Reordered

/-- What fresh counters hold once they have been given some events. -/
structure Totalled (events : List Event) (counters : Counters) : Prop where
  /-- Each overall counter is the sum of what the events add to it, up to the limit. -/
  operations : ∀ total, (counters.operations.get total).value =
    min (2 ^ 64 - 1) (events.map (·.adds total)).sum
  /-- The time is the sum of all durations, up to its own limit. -/
  time : counters.timing.total.value = min (2 ^ 128 - 1) (durations events).sum
  /-- The longest duration is the largest one, or zero if there is none. -/
  longest : counters.timing.longest.value = (durations events).max?.getD 0
  /-- The table of elements is in order, each name once. -/
  sorted : NameTable.Sorted counters.elements
  /-- The names are those that compilations, starts and finishes name. -/
  names : ∀ name, name ∈ counters.elements.map Prod.fst ↔ ∃ e ∈ events, e.element? = some name
  /-- The counters of an element are the sums of what the events about it add, up to the limit. -/
  elements : ∀ entry ∈ counters.elements, ∀ total, (entry.2.get total).value =
    min (2 ^ 64 - 1) (events.map (·.addsTo entry.1 total)).sum
  /-- What is counted for elements sums up to the overall counter of the same thing, up to the limit. -/
  agree : ∀ total : ElementTotal, (counters.operations.get total.overall).value =
    min (2 ^ 64 - 1) (counters.elements.map fun entry => (entry.2.get total).value).sum

theorem max_durations_fits {events : List Event} (fits : ∀ e ∈ events, e.Fits) :
    (durations events).max?.getD 0 ≤ 2 ^ 64 - 1 := by
  cases found : (durations events).max? with
  | none => exact Nat.zero_le _
  | some longest =>
    have member : longest ∈ durations events := (List.max?_eq_some_iff.1 found).1
    obtain ⟨e, among, reported⟩ := List.mem_filterMap.1 member
    have below : longest < 2 ^ 64 := by
      cases e with
      | finished element rows elapsed =>
        obtain rfl : elapsed = longest := Option.some.inj reported
        exact (fits _ among).2
      | _ => cases reported
    exact Nat.le_sub_one_of_lt below

/-- Fresh counters that are given events with 64-bit amounts hold saturated totals: each counter on its own
is the exact sum up to its limit, no matter in which order the events came, and the overall counters agree
with those of the elements. -/
theorem totals_saturated (events : List Event) (fits : ∀ e ∈ events, e.Fits) :
    Totalled events (zero.applyAll events) ∧
      ∀ reordered, events.Perm reordered → zero.applyAll reordered = zero.applyAll events := by
  refine ⟨?_, fun reordered perm => ofEvents_perm perm⟩
  refine
    { operations := ?_
      time := ?_
      longest := ?_
      sorted := sorted_ofEvents events
      names := mem_names_ofEvents events
      elements := ?_
      agree := agree_applyAll sorted_zero agree_zero events }
  · intro total
    exact (congrArg Saturating.value (get_ofEvents events total)).trans (Saturating.value_zero_add _)
  · exact (congrArg Saturating.value (total_ofEvents events)).trans (Saturating.value_zero_add _)
  · have longest := (congrArg Saturating.value (longest_ofEvents events)).trans
      (Saturating.value_zero_raise _)
    exact longest.trans (Nat.min_eq_right (max_durations_fits fits))
  · rintro ⟨name, each⟩ member total
    have found := ((sorted_ofEvents events).mem_iff name each).1 member
    have measured := element_ofEvents events name total
    rw [element, found, Option.getD_some] at measured
    rw [measured]
    exact Saturating.value_zero_add _

/-- Reads that go past the limit of their counters, one element type at a time. -/
def Sample.longReads : List Event :=
  [.compiled "Order", .started "Order", .finished "Order" (2 ^ 64 - 1) 5, .started "Item",
    .finished "Item" 7 (2 ^ 64 - 1), .finished "Order" 1 (2 ^ 64 - 1), .cache .hit]

theorem longReads_saturated :
    (∀ e ∈ Sample.longReads, e.Fits) ∧
      (Totalled Sample.longReads (zero.applyAll Sample.longReads) ∧
        ∀ reordered, Sample.longReads.Perm reordered →
          zero.applyAll reordered = zero.applyAll Sample.longReads) ∧
      (zero.applyAll Sample.longReads).operations.rowsRead.value = 2 ^ 64 - 1 ∧
      (zero.applyAll Sample.longReads).timing.total.value = 2 ^ 65 + 3 := by
  have fits : ∀ e ∈ Sample.longReads, e.Fits := by
    simp [Sample.longReads, Event.Fits]
  exact ⟨fits, totals_saturated Sample.longReads fits, by decide +kernel, by decide +kernel⟩

end Counters

end QueryPlan
