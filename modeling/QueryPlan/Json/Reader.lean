import QueryPlan.Json.Value
import QueryPlan.Text.Scan

/-!
# Reader — from JSON text to values

A document is one value, with blanks around it.  The reader checks the form of texts and numbers;
what they stand for is decided when they are read as something.
-/

namespace QueryPlan
namespace Json

def isBlank (c : Char) : Bool :=
  c == ' ' || c == '\n' || c == '\t' || c == '\r'

def blanks : Scan Unit := do
  let _ ← Scan.span isBlank

/-! ## Numbers -/

/-- Decimal digits, at least one. -/
def digits : Scan (List Char) := do
  let ds ← Scan.span (isDigitOf 10)
  if ds.isEmpty then Scan.refuse else return ds

/-- The whole part of a number, without leading zeros. -/
def whole : Scan (List Char) := do
  if ← Scan.accept '0' then
    return ['0']
  else
    digits

def fraction : Scan (List Char) := do
  if ← Scan.accept '.' then
    digits
  else
    return []

def exponent : Scan (Option Exponent) := do
  match ← Scan.peek? with
  | some 'e' | some 'E' =>
      let _ ← Scan.next
      if ← Scan.accept '-' then
        return some ⟨true, ← digits⟩
      else
        let _ ← Scan.accept '+'
        return some ⟨false, ← digits⟩
  | _ => return none

def number : Scan Number := do
  let negative ← Scan.accept '-'
  let w ← whole
  let f ← fraction
  return ⟨negative, w, f, ← exponent⟩

/-! ## Texts -/

/-- A unit of a text: a character, or one half of a surrogate pair. -/
inductive TextUnit where
  | char (c : Char)
  | half (code : Nat)

/-- The character that two halves stand for, the upper half first. -/
def joinHalves? (upper lower : Nat) : Option Char :=
  if 0xD800 ≤ upper ∧ upper < 0xDC00 ∧ 0xDC00 ≤ lower ∧ lower < 0xE000 then
    charOf? (0x10000 + (upper - 0xD800) * 0x400 + (lower - 0xDC00))
  else
    none

/-- The characters of a text, unless a half stands alone. -/
def joinUnits? : List TextUnit → Option (List Char)
  | [] => some []
  | .char c :: rest => (joinUnits? rest).map (c :: ·)
  | .half upper :: .half lower :: rest => do
      let c ← joinHalves? upper lower
      return c :: (← joinUnits? rest)
  | .half _ :: _ => none

def hexDigit : Scan Char := do
  let c ← Scan.next
  if isDigitOf 16 c then return c else Scan.refuse

/-- The unit that four hexadecimal digits name. -/
def codeUnit : Scan TextUnit := do
  let a ← hexDigit
  let b ← hexDigit
  let c ← hexDigit
  let d ← hexDigit
  let code := numberOf 16 [a, b, c, d]
  match charOf? code with
  | some c => return .char c
  | none => return .half code

/-- What follows a backslash. -/
def escape : Scan TextUnit := do
  match ← Scan.next with
  | '"' => return .char '"'
  | '\\' => return .char '\\'
  | '/' => return .char '/'
  | 'b' => return .char '\x08'
  | 'f' => return .char '\x0c'
  | 'n' => return .char '\n'
  | 'r' => return .char '\r'
  | 't' => return .char '\t'
  | 'u' => codeUnit
  | _ => Scan.refuse

/-- One unit of a text, or nothing at the closing quote. -/
def textUnit : Scan (Option TextUnit) := do
  match ← Scan.next with
  | '"' => return none
  | '\\' => return some (← escape)
  | c => if c.toNat < 0x20 then Scan.refuse else return some (.char c)

/-- A text after its opening quote. -/
def text : Scan (Option String) := do
  return (joinUnits? (← Scan.many textUnit)).map String.ofList

/-! ## Values -/

/-- The items of arrays and the members of objects stand between commas. -/
def listForm (close : Char) : Scan.ListForm :=
  ⟨close, blanks, false⟩

def member (value : Scan Value) : Scan (Option String × Value) := do
  Scan.expect '"'
  let name ← text
  blanks
  Scan.expect ':'
  blanks
  return (name, ← value)

/-- A value that is nested no deeper than a bound. -/
def value : Nat → Scan Value
  | 0 => Scan.refuse
  | depth + 1 => do
      match ← Scan.peek? with
      | some '"' =>
          let _ ← Scan.next
          return .text (← text)
      | some '[' =>
          let _ ← Scan.next
          return .array (← Scan.list (listForm ']') (value depth))
      | some '{' =>
          let _ ← Scan.next
          return .object (← Scan.list (listForm '}') (member (value depth)))
      | some 'n' =>
          Scan.word ['n', 'u', 'l', 'l']
          return .null
      | some 't' =>
          Scan.word ['t', 'r', 'u', 'e']
          return .bool true
      | some 'f' =>
          Scan.word ['f', 'a', 'l', 's', 'e']
          return .bool false
      | _ => return .number (← number)

/-- A document; its length bounds how deep values are nested. -/
def document : Scan Value := do
  blanks
  let v ← value ((← get).length + 1)
  blanks
  return v

def read? (s : String) : Option Value :=
  document.all? s.toList

end Json
end QueryPlan
