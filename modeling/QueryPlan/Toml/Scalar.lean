import QueryPlan.Text.Digits
import QueryPlan.Toml.Value

/-!
# Scalar — values written without quotes

What a text without quotes stands for is told by its form:

* a date or a time has a dash or a colon after its first digits, and must exist on the calendar and
  the clock;
* a float has a point or an exponent mark somewhere, or is infinite or not a number;
* an integer has decimal digits alone, or a base in front, or an underscore after its first digits.

Underscores stand between digits, and a space stands only between a date and a time.  An integer is
not looked at any closer here: whether its digits make a number is settled when the number is asked
for (`Numeral.toInt?`).
-/

namespace QueryPlan
namespace Toml

open Numeral (unsign)

def parts (separator : Char) (s : List Char) : List (List Char) :=
  s.splitOn separator

/-! ## Underscores -/

/-- Whether parts joined by underscores begin and end with digits where an underscore is next to them. -/
def isGrouped (isDigit : Char → Bool) (ps : List (List Char)) : Bool :=
  ps.tail.all (fun p => p.head?.any isDigit) && ps.dropLast.all (fun p => p.getLast?.any isDigit)

def ungroup? (isDigit : Char → Bool) (s : List Char) : Option (List Char) :=
  if isGrouped isDigit (parts '_' s) then some (s.filter (· != '_')) else none

/-- Whether a character is a decimal digit or an underscore. -/
def isSpacedDigit (c : Char) : Bool :=
  isDigitOf 10 c || c == '_'

/-! ## Integers -/

def basedInteger? (base : Nat) (s : List Char) : Option Value :=
  if s.all fun c => isDigitOf base c || c == '_' then
    do return .integer ⟨base, ← ungroup? (isDigitOf 16) s⟩
  else
    none

/-- Whether the digits after a sign begin with a zero that counts for nothing. -/
def hasLeadingZero (body : List Char) : Bool :=
  body.head? == some '0' && body != ['0']

/-- A decimal integer, with and without its sign. -/
def decimal? (s body : List Char) : Option Value :=
  if body.isEmpty || hasLeadingZero body then
    none
  else
    do return .integer ⟨10, ← ungroup? (isDigitOf 16) s⟩

/-! ## Floats -/

def isExponentMark (c : Char) : Bool :=
  c == 'e' || c == 'E'

/-- Whether a text has digits, and perhaps underscores. -/
def isSpaced (s : List Char) : Bool :=
  s.all isSpacedDigit && s.any (isDigitOf 10)

/-- Whether the digits in front of a point or exponent are a whole number. -/
def isWhole (s : List Char) : Bool :=
  isSpaced s && (s.head? != some '0' || s.countP (isDigitOf 10) == 1)

/-- Whether what follows a fraction is an exponent, or nothing. -/
def isExponent : List Char → Bool
  | [] => true
  | mark :: rest => isExponentMark mark && isSpaced (unsign rest).2

/-- Whether what follows a whole number is a fraction, an exponent or both. -/
def isFloatTail : List Char → Bool
  | '.' :: rest =>
      isSpaced (rest.takeWhile isSpacedDigit) && isExponent (rest.dropWhile isSpacedDigit)
  | rest => isExponent rest

def float? (s body : List Char) : Option Value :=
  if isWhole (body.takeWhile isSpacedDigit) && isFloatTail (body.dropWhile isSpacedDigit) then
    do return .float (String.ofList (← ungroup? (isDigitOf 10) s))
  else
    none

/-! ## Dates and times -/

/-- The number that a fixed count of decimal digits stands for. -/
def fixed? (count : Nat) (s : List Char) : Option Nat :=
  if s.length = count ∧ s.all (isDigitOf 10) then some (numberOf 10 s) else none

def daysIn (year month : Nat) : Nat :=
  if month = 2 then
    if year % 4 = 0 ∧ (year % 100 ≠ 0 ∨ year % 400 = 0) then 29 else 28
  else if month = 4 ∨ month = 6 ∨ month = 9 ∨ month = 11 then
    30
  else
    31

def isDate (s : List Char) : Bool :=
  match parts '-' s with
  | [y, m, d] =>
      match fixed? 4 y, fixed? 2 m, fixed? 2 d with
      | some year, some month, some day =>
          decide (1 ≤ month ∧ month ≤ 12 ∧ 1 ≤ day ∧ day ≤ daysIn year month)
      | _, _, _ => false
  | _ => false

/-- Whether two digits are a number up to a bound. -/
def isUpTo (bound : Nat) (s : List Char) : Bool :=
  match fixed? 2 s with
  | some n => decide (n ≤ bound)
  | none => false

/-- Whether a text is a number of seconds, with or without fraction. -/
def isSeconds (s : List Char) : Bool :=
  match parts '.' s with
  | [whole] => isUpTo 60 whole
  | [whole, fraction] => isUpTo 60 whole && !fraction.isEmpty && fraction.all (isDigitOf 10)
  | _ => false

/-- Whether a text is a time of day; seconds may be left out. -/
def isTime (s : List Char) : Bool :=
  match parts ':' s with
  | [hour, minute] => isUpTo 23 hour && isUpTo 59 minute
  | [hour, minute, second] => isUpTo 23 hour && isUpTo 59 minute && isSeconds second
  | _ => false

/-- Whether a character begins an offset from universal time. -/
def isOffsetMark (c : Char) : Bool :=
  c == 'Z' || c == 'z' || c == '+' || c == '-'

/-- Whether a text is an offset from universal time, or empty. -/
def isOffset (s : List Char) : Bool :=
  match s with
  | [] | ['Z'] | ['z'] => true
  | '+' :: rest | '-' :: rest =>
      match parts ':' rest with
      | [hour, minute] => isUpTo 23 hour && isUpTo 59 minute
      | _ => false
  | _ => false

def dateLength : Nat :=
  10

/-- Whether a text is a date, a time, or a date with a time and perhaps an offset. -/
def isMoment (s : List Char) : Bool :=
  let date := s.take dateLength
  match s.drop dateLength with
  | [] => isDate date || isTime s
  | mark :: rest =>
      isTime s
        || (isDate date && (mark == 'T' || mark == 't' || mark == ' ')
          && isTime (rest.takeWhile (!isOffsetMark ·))
          && isOffset (rest.dropWhile (!isOffsetMark ·)))

def moment? (s : List Char) : Option Value :=
  if isMoment s then some (.moment (String.ofList s)) else none

/-! ## All forms -/

/-- A number or a moment, with and without its sign. -/
def number? (s body : List Char) : Option Value :=
  let rest := body.dropWhile (isDigitOf 10)
  match rest.head? with
  | none => decimal? s body
  | some mark =>
      if mark == '-' || mark == ':' then
        moment? s
      else if rest.contains ' ' then
        none
      else if rest.any fun c => c == '.' || isExponentMark c then
        float? s body
      else if mark == '_' then
        decimal? s body
      else
        none

/-- The value that a text without quotes stands for. -/
def scalar? (s : List Char) : Option Value :=
  match s with
  | ['t', 'r', 'u', 'e'] => some (.bool true)
  | ['f', 'a', 'l', 's', 'e'] => some (.bool false)
  | '0' :: 'x' :: rest => basedInteger? 16 rest
  | '0' :: 'o' :: rest => basedInteger? 8 rest
  | '0' :: 'b' :: rest => basedInteger? 2 rest
  | _ =>
      match (unsign s).2 with
      | ['i', 'n', 'f'] | ['n', 'a', 'n'] => some (.float (String.ofList s))
      | body => number? s body

end Toml
end QueryPlan
