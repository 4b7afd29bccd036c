import QueryPlan.Metrics.Counters

/-!
# Report — a summary of the counters

The hit ratio counts hits among lookups, if there were any.  Elements are listed by falling average
number of rows per query, then by falling number of rows, then by name.
-/

namespace QueryPlan

/-- Totals and average of one element type. -/
structure ElementSummary where
  element : String
  plansCompiled : Counter
  queries : Counter
  rowsRead : Counter
  averageRows : Float

/-- A counter snapshot: the counters and the start of their window in milliseconds. -/
structure Snapshot where
  counters : Counters
  since : Nat

structure Report where
  snapshot : Option Snapshot
  hitRatio : Option Float
  elements : List ElementSummary

namespace Report

/-- A quotient of counts, each rounded to a float first. -/
def quotient (a b : Nat) : Float :=
  Float.ofNat a / Float.ofNat b

/-- The summary of one element type; without queries the average is zero. -/
def summarize (entry : String × ElementCounters) : ElementSummary where
  element := entry.1
  plansCompiled := entry.2.plansCompiled
  queries := entry.2.queries
  rowsRead := entry.2.rowsRead
  averageRows :=
    if 0 < entry.2.queries.value then
      quotient entry.2.rowsRead.value entry.2.queries.value
    else
      0

/-- Whether an element is listed no later than another. -/
def before (a b : ElementSummary) : Bool :=
  if b.averageRows < a.averageRows then
    true
  else if a.averageRows < b.averageRows then
    false
  else if a.rowsRead.value = b.rowsRead.value then
    !decide (b.element < a.element)
  else
    decide (b.rowsRead.value < a.rowsRead.value)

def ofSnapshot (snapshot : Snapshot) : Report :=
  let ops := snapshot.counters.operations
  let lookups : Counter := ops.cacheHits.add ops.cacheMisses.value
  { snapshot := some snapshot
    hitRatio :=
      if 0 < lookups.value then some (quotient ops.cacheHits.value lookups.value) else none
    elements := (snapshot.counters.elements.map summarize).mergeSort before }

end Report

end QueryPlan
