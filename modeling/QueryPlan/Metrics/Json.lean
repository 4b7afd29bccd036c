import QueryPlan.Json.Record
import QueryPlan.Metrics.Report

/-!
# Json — reports read from JSON

Counters are integers within their limits.  The counters and the hit ratio of a report may be
missing; everything else is required.  A report is read as it stands: its ratio and averages are not
checked against its counters.
-/

namespace QueryPlan

namespace Saturating

def ofJson? {limit : Nat} (v : Json.Value) : Option (Saturating limit) := do
  let n ← v.toNat?
  if h : n ≤ limit then some ⟨n, h⟩ else none

end Saturating

namespace Operations

def fieldNames : List String :=
  ["cache_hits", "cache_misses", "cache_discarded", "cache_bypassed", "cache_truncated",
    "plans_compiled", "compile_failures", "queries", "rows_read"]

def toList (ops : Operations) : List Counter :=
  [ops.cacheHits, ops.cacheMisses, ops.cacheDiscarded, ops.cacheBypassed, ops.cacheTruncated,
    ops.plansCompiled, ops.compileFailures, ops.queries, ops.rowsRead]

def named (ops : Operations) : List (String × Counter) :=
  fieldNames.zip ops.toList

def ofJson? (v : Json.Value) : Option Operations := do
  match ← (← v.fullRecord? fieldNames).mapM Saturating.ofJson? with
  | [hits, misses, discarded, bypassed, truncated, compiled, failures, queries, rows] =>
      some ⟨hits, misses, discarded, bypassed, truncated, compiled, failures, queries, rows⟩
  | _ => none

end Operations

namespace Timing

def fieldNames : List String :=
  ["exec_us_total", "exec_us_max"]

def ofJson? (v : Json.Value) : Option Timing := do
  match ← v.fullRecord? fieldNames with
  | [total, longest] => return ⟨← Saturating.ofJson? total, ← Saturating.ofJson? longest⟩
  | _ => none

end Timing

namespace ElementCounters

def fieldNames : List String :=
  ["plans_compiled", "queries", "rows_read"]

def ofJson? (v : Json.Value) : Option ElementCounters := do
  match ← (← v.fullRecord? fieldNames).mapM Saturating.ofJson? with
  | [compiled, queries, rows] => some ⟨compiled, queries, rows⟩
  | _ => none

end ElementCounters

namespace Snapshot

def fieldNames : List String :=
  ["ops", "perf", "elements", "since_ms"]

def ofJson? (v : Json.Value) : Option Snapshot := do
  match ← v.fullRecord? fieldNames with
  | [ops, perf, elements, since] =>
      let operations ← Operations.ofJson? ops
      let timing ← Timing.ofJson? perf
      let entries ← (← elements.toTable?).mapM fun e => (ElementCounters.ofJson? e.2).map (e.1, ·)
      let since : Counter ← Saturating.ofJson? since
      some ⟨⟨operations, timing, NameTable.ofList entries⟩, since.value⟩
  | _ => none

end Snapshot

namespace ElementSummary

def fieldNames : List String :=
  ["element", "plans_compiled", "queries", "rows_read", "avg_rows_per_query"]

def ofJson? (v : Json.Value) : Option ElementSummary := do
  match ← v.fullRecord? fieldNames with
  | [element, compiled, queries, rows, average] =>
      return ⟨← element.toText?, ← Saturating.ofJson? compiled, ← Saturating.ofJson? queries,
        ← Saturating.ofJson? rows, ← average.toFloat?⟩
  | _ => none

end ElementSummary

namespace Report

def fieldNames : List String :=
  ["counters", "cache_hit_ratio", "element_counters"]

def ofJson? (v : Json.Value) : Option Report := do
  match ← v.record? fieldNames with
  | [counters, ratio, some elements] =>
      let snapshot ← Json.Value.optional? Snapshot.ofJson? counters
      let hitRatio ← Json.Value.optional? Json.Value.toFloat? ratio
      return ⟨snapshot, hitRatio, ← (← elements.toList?).mapM ElementSummary.ofJson?⟩
  | _ => none

def read? (s : String) : Option Report := do
  ofJson? (← Json.read? s)

end Report

end QueryPlan
