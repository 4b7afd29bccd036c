/-!
# Event — what compilation, caching and execution report

Events name element types by their path.  Amounts are natural numbers; durations are microseconds.
-/

namespace QueryPlan

inductive CacheOutcome where
  | hit
  | miss
  /-- An equivalent plan was inserted while this one was compiled. -/
  | discarded
  /-- The cache is disabled. -/
  | bypassed
  deriving DecidableEq

inductive Event where
  | cache (outcome : CacheOutcome)
  /-- Entries dropped for exceeding the depth of the cache. -/
  | truncated (entries : Nat)
  | compiled (element : String)
  | compileFailed
  | started (element : String)
  | finished (element : String) (rows elapsed : Nat)
  deriving DecidableEq

end QueryPlan
