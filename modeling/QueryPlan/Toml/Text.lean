import QueryPlan.Text.Digits
import QueryPlan.Text.Scan

/-!
# Text — quoted texts

A text stands between double quotes, with escapes, or between single quotes, without.  Three quotes
open a text of several lines; a line break right after them is not part of it, and a backslash at the
end of a line joins it to the next visible character.
-/

namespace QueryPlan
namespace Toml

def isBlank (c : Char) : Bool :=
  c == ' ' || c == '\t'

/-- Characters that no text and no comment may hold. -/
def isControl (c : Char) : Bool :=
  (c.toNat < 0x20 && c != '\t') || c.toNat == 0x7f

/-- A character given by a number of hexadecimal digits. -/
def codePoint (count : Nat) : Scan Char := do
  let digits ← (List.replicate count ()).mapM fun _ => Scan.next
  if digits.all (isDigitOf 16) then
    Scan.ofOption (charOf? (numberOf 16 digits))
  else
    Scan.refuse

def escape : Scan Char := do
  match ← Scan.next with
  | 'b' => return '\x08'
  | 't' => return '\t'
  | 'n' => return '\n'
  | 'f' => return '\x0c'
  | 'r' => return '\r'
  | 'e' => return '\x1b'
  | '"' => return '"'
  | '\\' => return '\\'
  | 'x' => codePoint 2
  | 'u' => codePoint 4
  | 'U' => codePoint 8
  | _ => Scan.refuse

/-- A quote in use: the character, and whether a backslash escapes. -/
structure Quote where
  mark : Char
  escapes : Bool

def Quote.basic : Quote :=
  ⟨'"', true⟩

def Quote.plain : Quote :=
  ⟨'\'', false⟩

/-- One character of a text on one line, or nothing at its end. -/
def lineChar (q : Quote) : Scan (Option Char) := do
  let c ← Scan.next
  if c = q.mark then
    return none
  else if q.escapes && c == '\\' then
    return some (← escape)
  else if isControl c then
    Scan.refuse
  else
    return some c

/-- Skip to the next visible character, which is on a later line. -/
def joinLines : Scan Unit := do
  let _ ← Scan.span isBlank
  Scan.expect '\n'
  let _ ← Scan.span fun c => isBlank c || c == '\n'

/-- A backslash in a text of several lines: an escape, or the end of a line. -/
def blockEscape : Scan (List Char) := do
  match ← Scan.peek? with
  | some ' ' | some '\t' | some '\n' =>
      joinLines
      return []
  | _ => return [← escape]

/-- The characters of a run of quotes in a text of several lines, and whether the text ends there: the
last three of three to five quotes do. -/
def quoteRun? (run : List Char) : Option (List Char × Bool) :=
  if run.length < 3 then
    some (run, false)
  else if run.length ≤ 5 then
    some (run.drop 3, true)
  else
    none

/-- A stretch of a text of several lines, with the characters at its end, or nothing at its end. -/
inductive Stretch where
  | inside (cs : List Char)
  | last (cs : List Char)

def blockStretch (q : Quote) : Scan Stretch := do
  let run ← Scan.span (· == q.mark)
  if run.isEmpty then
    let c ← Scan.next
    if q.escapes && c == '\\' then
      return .inside (← blockEscape)
    else if isControl c && c != '\n' then
      Scan.refuse
    else
      return .inside [c]
  else
    match ← Scan.ofOption (quoteRun? run) with
    | (cs, true) => return .last cs
    | (cs, false) => return .inside cs

/-- The rest of a text of several lines, with at most one stretch for every character of a bound. -/
def blockRest (q : Quote) : List Char → Scan (List Char)
  | [] => Scan.refuse
  | _ :: bound => do
      match ← blockStretch q with
      | .inside cs => return cs ++ (← blockRest q bound)
      | .last cs => return cs

def block (q : Quote) : Scan (List Char) := do
  let _ ← Scan.accept '\n'
  blockRest q (← get)

def line (q : Quote) : Scan (List Char) :=
  Scan.many (lineChar q)

/-- A text after its opening quote, on one line or on several: two quotes alone are empty. -/
def text (q : Quote) : Scan (List Char) := do
  if ← Scan.accept q.mark then
    if ← Scan.accept q.mark then
      block q
    else
      return []
  else
    line q

end Toml
end QueryPlan
