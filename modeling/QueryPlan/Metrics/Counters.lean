import QueryPlan.Metrics.Event
import QueryPlan.NameTable

/-!
# Counters — saturating totals over events

Counters never wrap: a `Saturating limit` stops at its limit.  Per-element counters are kept sorted
by element name, each name once, so equal totals are equal tables.
-/

namespace QueryPlan

/-- A counter that stops at a limit. -/
structure Saturating (limit : Nat) where
  value : Nat
  le_limit : value ≤ limit
  deriving DecidableEq

namespace Saturating

variable {limit : Nat}

/-- The counter at a value, or at the limit if the value is beyond it. -/
def clamp (value : Nat) : Saturating limit :=
  ⟨min limit value, Nat.min_le_left limit value⟩

def zero : Saturating limit :=
  ⟨0, Nat.zero_le limit⟩

def add (counter : Saturating limit) (amount : Nat) : Saturating limit :=
  clamp (counter.value + amount)

/-- Keep the larger of the counter and an amount. -/
def raise (counter : Saturating limit) (amount : Nat) : Saturating limit :=
  clamp (max counter.value amount)

end Saturating

abbrev Counter := Saturating (Nat.pow 2 64 - 1)

abbrev Total := Saturating (Nat.pow 2 128 - 1)

/-- Totals over all elements. -/
structure Operations where
  cacheHits : Counter
  cacheMisses : Counter
  cacheDiscarded : Counter
  cacheBypassed : Counter
  cacheTruncated : Counter
  plansCompiled : Counter
  compileFailures : Counter
  queries : Counter
  rowsRead : Counter
  deriving DecidableEq

namespace Operations

def uniform (value : Counter) : Operations :=
  ⟨value, value, value, value, value, value, value, value, value⟩

end Operations

/-- Time spent enumerating results, in microseconds. -/
structure Timing where
  total : Total
  longest : Counter
  deriving DecidableEq

/-- Totals for one element type. -/
structure ElementCounters where
  plansCompiled : Counter
  queries : Counter
  rowsRead : Counter
  deriving DecidableEq

namespace ElementCounters

def zero : ElementCounters :=
  ⟨.zero, .zero, .zero⟩

end ElementCounters

structure Counters where
  operations : Operations
  timing : Timing
  elements : NameTable ElementCounters
  deriving DecidableEq

namespace Counters

def zero : Counters :=
  ⟨.uniform .zero, ⟨.zero, .zero⟩, []⟩

def updateElement (counters : Counters) (element : String)
    (change : ElementCounters → ElementCounters) : NameTable ElementCounters :=
  NameTable.update .zero change element counters.elements

def countLookup (ops : Operations) : CacheOutcome → Operations
  | .hit => { ops with cacheHits := ops.cacheHits.add 1 }
  | .miss => { ops with cacheMisses := ops.cacheMisses.add 1 }
  | .discarded => { ops with cacheDiscarded := ops.cacheDiscarded.add 1 }
  | .bypassed => { ops with cacheBypassed := ops.cacheBypassed.add 1 }

def apply (counters : Counters) : Event → Counters
  | .cache outcome => { counters with operations := countLookup counters.operations outcome }
  | .truncated entries =>
      let ops := counters.operations
      { counters with
        operations := { ops with cacheTruncated := ops.cacheTruncated.add entries } }
  | .compiled element =>
      let ops := counters.operations
      { counters with
        operations := { ops with plansCompiled := ops.plansCompiled.add 1 }
        elements := counters.updateElement element fun e =>
          { e with plansCompiled := e.plansCompiled.add 1 } }
  | .compileFailed =>
      let ops := counters.operations
      { counters with
        operations := { ops with compileFailures := ops.compileFailures.add 1 } }
  | .started element =>
      let ops := counters.operations
      { counters with
        operations := { ops with queries := ops.queries.add 1 }
        elements := counters.updateElement element fun e =>
          { e with queries := e.queries.add 1 } }
  | .finished element rows elapsed =>
      let ops := counters.operations
      let timing := counters.timing
      { operations := { ops with rowsRead := ops.rowsRead.add rows }
        timing := ⟨timing.total.add elapsed, timing.longest.raise elapsed⟩
        elements := counters.updateElement element fun e =>
          { e with rowsRead := e.rowsRead.add rows } }

def applyAll (counters : Counters) (events : List Event) : Counters :=
  events.foldl apply counters

end Counters

end QueryPlan
