import QueryPlan.Text.Digits

/-!
# Value — JSON values

Numbers are kept as they are written, because what a number means depends on the type it is read as.
A text may spell an unpaired surrogate, in which case it has no characters.
-/

namespace QueryPlan
namespace Json

structure Exponent where
  negative : Bool
  digits : List Char
  deriving DecidableEq

/-- A number as it is written. -/
structure Number where
  negative : Bool
  whole : List Char
  /-- Digits after the point; empty without a point. -/
  fraction : List Char
  exponent : Option Exponent
  deriving DecidableEq

inductive Value where
  | null
  | bool (v : Bool)
  | number (n : Number)
  | text (s : Option String)
  | array (items : List Value)
  | object (members : List (Option String × Value))

namespace Number

/-- Whether a number is written without point and exponent. -/
def isInteger (n : Number) : Bool :=
  n.fraction.isEmpty && n.exponent.isNone

/-- The number as a natural number; a sign, a point or an exponent rules that out. -/
def toNat? (n : Number) : Option Nat :=
  if n.isInteger && !n.negative then some (numberOf 10 n.whole) else none

/-! ## Floats

A number is read as a float by way of a significand of 64 bits and a decimal exponent.  Digits that
do not fit into the significand are dropped, and the result is one product or quotient, so it need
not be the float nearest to the number. -/

def significandLimit : Nat :=
  Nat.pow 2 64 - 1

/-- Take digits into a significand for as long as it fits; returns how many digits are left. -/
def absorb (significand : Nat) : List Char → Nat × Nat
  | [] => (significand, 0)
  | c :: rest =>
      let extended := significand * 10 + (digitValue? c).getD 0
      if extended ≤ significandLimit then
        absorb extended rest
      else
        (significand, rest.length + 1)

/-- The largest exponent of a power of ten that is a finite float. -/
def maxPower : Nat :=
  308

def powerOfTen (exponent : Nat) : Float :=
  OfScientific.ofScientific 1 false exponent

/-- Divide by a power of ten, in several steps if the power is not a finite float. -/
def divideByPower (x : Float) (exponent : Nat) : Float :=
  if exponent ≤ maxPower then
    x / powerOfTen exponent
  else if x == 0 then
    x
  else
    divideByPower (x / powerOfTen maxPower) (exponent - maxPower)
termination_by exponent
decreasing_by
  simp only [maxPower] at *
  omega

/-- Multiply by a power of ten, unless the result is infinite. -/
def multiplyByPower? (x : Float) (exponent : Nat) : Option Float :=
  if exponent ≤ maxPower then
    let product := x * powerOfTen exponent
    if product.isInf then none else some product
  else if x == 0 then
    some x
  else
    none

/-- A significand times a power of ten, unless the result is infinite. -/
def scale? (significand : Nat) (exponent : Int) : Option Float :=
  let x := Float.ofNat significand
  if 0 ≤ exponent then
    multiplyByPower? x exponent.toNat
  else
    some (divideByPower x (-exponent).toNat)

/-- The largest exponent that is told apart from larger ones. -/
def exponentLimit : Nat :=
  Nat.pow 2 31 - 1

/-- The absolute value of a number as a float, unless it is infinite. -/
def magnitude? (n : Number) : Option Float :=
  let (whole, dropped) := absorb 0 n.whole
  let (significand, left) := absorb whole n.fraction
  let start : Int := (dropped : Int) - ((n.fraction.length - left : Nat) : Int)
  match n.exponent with
  | none => scale? significand start
  | some e =>
      let amount := numberOf 10 e.digits
      if exponentLimit < amount then
        if significand = 0 ∨ e.negative then some 0 else none
      else
        scale? significand (if e.negative then start - amount else start + amount)

/-- The number as a float, unless it is infinite; a sign is kept on zero. -/
def toFloat? (n : Number) : Option Float :=
  n.magnitude?.map fun x => if n.negative then -x else x

end Number

end Json
end QueryPlan
