/-!
# Shortest — the fewest decimal digits that read back

A positive binary float stands for every real number that rounds to it: an interval around its
value, ends included exactly when the mantissa is even.  `Dyadic.shortest` is the decimal with the
fewest digits inside that interval; among two such decimals it is the nearer one, and the upper one
when both are equally near.

Everything is exact arithmetic on natural numbers.  Bounds are kept in quarters of the unit
`2 ^ exponent`, and a grid point `c * 10 ^ g` is compared with them by cross-multiplication.
-/

namespace QueryPlan

/-- The positive number `mantissa * 2 ^ exponent`. -/
structure Dyadic where
  mantissa : Nat
  exponent : Int
  /-- Whether the next smaller float is only half a unit away, as it is below a power of two. -/
  narrowBelow : Bool

/-- The number `digits * 10 ^ exponent`. -/
structure Decimal where
  digits : Nat
  exponent : Int

namespace Dyadic

/-- Quarter units from zero to the lower end of the rounding interval. -/
def lower (d : Dyadic) : Nat :=
  if d.narrowBelow then 4 * d.mantissa - 1 else 4 * d.mantissa - 2

/-- Quarter units from zero to the upper end of the rounding interval. -/
def upper (d : Dyadic) : Nat :=
  4 * d.mantissa + 2

/-- One quarter unit, on the common scale used to compare with multiples of `10 ^ g`. -/
def quarter (d : Dyadic) (g : Int) : Nat :=
  Nat.pow 2 (d.exponent - 2).toNat * Nat.pow 10 (-g).toNat

/-- One step of the grid `10 ^ g`, on the same scale as `quarter`. -/
def step (d : Dyadic) (g : Int) : Nat :=
  Nat.pow 10 g.toNat * Nat.pow 2 (2 - d.exponent).toNat

/-- Whether `c * 10 ^ g` rounds to the float. -/
def contains (d : Dyadic) (g : Int) (c : Nat) : Bool :=
  let x := c * d.step g
  if d.mantissa % 2 == 0 then
    decide (d.lower * d.quarter g ≤ x) && decide (x ≤ d.upper * d.quarter g)
  else
    decide (d.lower * d.quarter g < x) && decide (x < d.upper * d.quarter g)

/-- The point of the grid `10 ^ g` nearest to the float among those that round to it. -/
def nearest? (d : Dyadic) (g : Int) : Option Nat :=
  let value := 4 * d.mantissa * d.quarter g
  let below := value / d.step g
  match d.contains g below, d.contains g (below + 1) with
  | true, true => some (if 2 * (value - below * d.step g) < d.step g then below else below + 1)
  | true, false => some below
  | false, true => some (below + 1)
  | false, false => none

/-- Exponent of the coarsest grid tried: every finite double is below `10 ^ 309`. -/
def coarsest : Int := 309

/-- Number of grids tried.  The finest is `10 ^ -1074`, which holds every double exactly. -/
def gridCount : Nat := 1384

/-- The shortest decimal that rounds to the float: grids are tried from coarse to fine. -/
def shortest (d : Dyadic) : Decimal :=
  let onGrid (i : Nat) : Option Decimal :=
    let g := coarsest - i
    (d.nearest? g).map fun c => ⟨c, g⟩
  ((List.range gridCount).findSome? onGrid).getD ⟨d.mantissa, 0⟩

end Dyadic

end QueryPlan
