import QueryPlan.Toml.Scalar
import QueryPlan.Toml.Text

/-!
# Document — from TOML text to its table

A document is a sequence of lines: assignments, headers, comments and empty lines.  An assignment
belongs to the table of the last header before it.  Line breaks may be written with a carriage
return, which stands nowhere else.
-/

namespace QueryPlan
namespace Toml

/-! ## Keys -/

def isKeyChar (c : Char) : Bool :=
  ('a' ≤ c && c ≤ 'z') || ('A' ≤ c && c ≤ 'Z') || ('0' ≤ c && c ≤ '9') || c == '_' || c == '-'

/-- Skip blanks within a line. -/
def blanks : Scan Unit := do
  let _ ← Scan.span isBlank

def keyPart : Scan String := do
  if ← Scan.accept '"' then
    return String.ofList (← line .basic)
  else if ← Scan.accept '\'' then
    return String.ofList (← line .plain)
  else
    let cs ← Scan.span isKeyChar
    if cs.isEmpty then Scan.refuse else return String.ofList cs

def keyRest : Scan (Option String) := do
  if ← Scan.accept '.' then
    blanks
    let part ← keyPart
    blanks
    return some part
  else
    return none

/-- The largest number of parts of a key, and the largest number of arrays and tables in braces that
are nested in one another. -/
def nestingLimit : Nat :=
  80

def key : Scan (List String) := do
  let first ← keyPart
  blanks
  let rest ← Scan.many keyRest
  if rest.length < nestingLimit then return first :: rest else Scan.refuse

/-! ## Values -/

def comment : Scan Unit := do
  if ← Scan.accept '#' then
    let _ ← Scan.span (!isControl ·)

def lineBreak : Scan (Option Unit) := do
  blanks
  comment
  if ← Scan.accept '\n' then
    return some ()
  else
    return none

/-- Skip blanks, comments and line breaks. -/
def space : Scan Unit := do
  let _ ← Scan.many lineBreak

/-- Arrays and tables in braces may go over several lines, with comments, and end in a comma. -/
def listForm (close : Char) : Scan.ListForm :=
  ⟨close, space, true⟩

/-- Characters of words without quotes: all but those that separate values. -/
def isWordChar (c : Char) : Bool :=
  !(isBlank c || c == '\n' || c == '#' || c == '=' || c == ',' || c == '[' || c == ']'
    || c == '\x7b' || c == '\x7d')

/-- Whether a character after blanks begins one more word of the same value. -/
def startsWord (c : Char) : Bool :=
  isWordChar c && c != '.' && c != '"' && c != '\''

def furtherWord : Scan (Option (List Char)) := do
  let gap ← Scan.span isBlank
  if (← Scan.peek?).any startsWord then
    return some (gap ++ (← Scan.span isWordChar))
  else
    return none

def scalar : Scan Value := do
  let first ← Scan.span isWordChar
  let further ← Scan.many furtherWord
  Scan.ofOption (scalar? (first ++ further.flatten))

def simple : Scan Value := do
  if ← Scan.accept '"' then
    return .text (String.ofList (← text .basic))
  else if ← Scan.accept '\'' then
    return .text (String.ofList (← text .plain))
  else
    scalar

/-- A key, an equals sign and a value; `gap` is what may stand around the sign. -/
def assignment (gap : Scan Unit) (value : Scan Value) : Scan (List String × Value) := do
  let k ← key
  gap
  Scan.expect '='
  gap
  return (k, ← value)

/-- A value that is nested no deeper than a bound. -/
def value : Nat → Scan Value
  | 0 => simple
  | depth + 1 => do
      if ← Scan.accept '[' then
        return .array (← Scan.list (listForm ']') (value depth))
      else if ← Scan.accept '\x7b' then
        let assignments ← Scan.list (listForm '\x7d') (assignment space (value depth))
        return .table .complete (← Scan.ofOption (Entries.ofList assignments))
      else
        simple

/-! ## Lines -/

inductive Statement where
  | assign (key : List String) (value : Value)
  /-- A header of a table. -/
  | declare (path : List String)
  /-- A header of one more table of an array. -/
  | append (path : List String)

def header : Scan Statement := do
  if ← Scan.accept '[' then
    blanks
    let path ← key
    Scan.expect ']'
    Scan.expect ']'
    return .append path
  else
    blanks
    let path ← key
    Scan.expect ']'
    return .declare path

def statement : Scan Statement := do
  if ← Scan.accept '[' then
    header
  else
    let (k, v) ← assignment blanks (value nestingLimit)
    return .assign k v

def lineEnd : Scan Unit := do
  blanks
  comment
  match ← Scan.peek? with
  | none => return
  | some _ => Scan.expect '\n'

/-- The next statement, if there is one, with the line it ends. -/
def nextStatement : Scan (Option Statement) := do
  space
  match ← Scan.peek? with
  | none => return none
  | some _ => do
      let s ← statement
      lineEnd
      return some s

/-! ## Documents -/

/-- A document under construction: its table, and the path of the header in force. -/
structure Builder where
  root : Entries
  current : List String

namespace Builder

def empty : Builder :=
  ⟨[], []⟩

/-- Change the table of a name inside the table that the other parts of a path lead to. -/
def changeLast (change : String → Entries → Option Entries) (path : List String)
    (root : Entries) : Option Entries :=
  match path.getLast? with
  | some name => Entries.within (change name) path.dropLast root
  | none => none

/-- Add a statement, unless it contradicts an earlier one. -/
def add (b : Builder) : Statement → Option Builder
  | .assign k v => do
      return { b with root := ← Entries.within (Entries.assign k v) b.current b.root }
  | .declare path => do return ⟨← changeLast Entries.declare path b.root, path⟩
  | .append path => do return ⟨← changeLast Entries.append path b.root, path⟩

end Builder

/-- Line breaks without carriage returns; a carriage return anywhere else is refused. -/
def joinReturns? : List Char → Option (List Char)
  | [] => some []
  | '\r' :: '\n' :: rest => (joinReturns? rest).map ('\n' :: ·)
  | c :: rest => if c = '\r' then none else (joinReturns? rest).map (c :: ·)

def dropMark : List Char → List Char
  | '\uFEFF' :: rest => rest
  | s => s

def statements? (s : String) : Option (List Statement) := do
  (Scan.many nextStatement).all? (← joinReturns? (dropMark s.toList))

def read? (s : String) : Option Entries := do
  return (← (← statements? s).foldlM Builder.add Builder.empty).root

end Toml
end QueryPlan
