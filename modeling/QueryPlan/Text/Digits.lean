/-!
# Digits — numbers written in a base

Digits are the decimal ones, continued by letters of either case.
-/

namespace QueryPlan

def digitValue? (c : Char) : Option Nat :=
  if '0' ≤ c ∧ c ≤ '9' then
    some (c.toNat - '0'.toNat)
  else if 'a' ≤ c ∧ c ≤ 'f' then
    some (c.toNat - 'a'.toNat + 10)
  else if 'A' ≤ c ∧ c ≤ 'F' then
    some (c.toNat - 'A'.toNat + 10)
  else
    none

def isDigitOf (base : Nat) (c : Char) : Bool :=
  match digitValue? c with
  | some value => decide (value < base)
  | none => false

/-- The number that digits of a base stand for; other characters count as zero. -/
def numberOf (base : Nat) (digits : List Char) : Nat :=
  digits.foldl (fun n c => n * base + (digitValue? c).getD 0) 0

/-- The character of a code point, unless it is a surrogate or out of range. -/
def charOf? (code : Nat) : Option Char :=
  if h : code.isValidChar then some ⟨UInt32.ofNatLT code (by
    rcases h with h | h
    · exact Nat.lt_trans h (by decide)
    · exact Nat.lt_trans h.2 (by decide)), by
      simpa [UInt32.isValidChar] using h⟩ else none

end QueryPlan
