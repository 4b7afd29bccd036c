/-!
# Fresh — a supply of serial numbers

Template nodes, capture environments, schemas and plans are told apart by serial numbers.  A number
is drawn from a supply that only counts upwards, so two things made one after the other never share
one.
-/

namespace QueryPlan

/-- A computation that may draw serial numbers. -/
abbrev Fresh := StateM Nat

namespace Fresh

def next : Fresh Nat :=
  modifyGet fun n => (n, n + 1)

end Fresh

end QueryPlan
