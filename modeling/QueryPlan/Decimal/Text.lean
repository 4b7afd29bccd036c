import QueryPlan.Decimal.Shortest

/-!
# Text — floats in positional notation

Floats are written with their shortest digits, never with an exponent, and without a fraction when
they are whole: `1`, `-0`, `0.1`, `1000000000000000000000`, `0.0000001`.
-/

namespace QueryPlan

inductive FloatShape where
  | notANumber
  | infinite (negative : Bool)
  | zero (negative : Bool)
  | finite (negative : Bool) (magnitude : Dyadic)

namespace FloatShape

/-- Read the sign, exponent and fraction fields of the binary64 format. -/
def ofFloat (x : Float) : FloatShape :=
  let bits := x.toBits.toNat
  let negative := decide (Nat.pow 2 63 ≤ bits)
  let field : Nat := bits / Nat.pow 2 52 % Nat.pow 2 11
  let fraction : Nat := bits % Nat.pow 2 52
  if field == 2047 then
    if fraction == 0 then infinite negative else notANumber
  else if field == 0 then
    if fraction == 0 then zero negative else finite negative ⟨fraction, -1074, false⟩
  else
    finite negative ⟨Nat.pow 2 52 + fraction, (field : Int) - 1075, fraction == 0 && decide (1 < field)⟩

end FloatShape

namespace Decimal

def zeros (n : Nat) : String :=
  String.ofList (List.replicate n '0')

/-- Positional notation: zeros fill the places up to the point on either side. -/
def text (d : Decimal) : String :=
  let digits := Nat.repr d.digits
  if 0 ≤ d.exponent then
    digits ++ zeros d.exponent.toNat
  else
    let places := (-d.exponent).toNat
    if digits.length ≤ places then
      "0." ++ zeros (places - digits.length) ++ digits
    else
      let whole := digits.length - places
      String.ofList (digits.toList.take whole) ++ "." ++ String.ofList (digits.toList.drop whole)

end Decimal

def floatText (x : Float) : String :=
  match FloatShape.ofFloat x with
  | .notANumber => "NaN"
  | .infinite negative => if negative then "-inf" else "inf"
  | .zero negative => if negative then "-0" else "0"
  | .finite negative magnitude => (if negative then "-" else "") ++ magnitude.shortest.text

end QueryPlan
