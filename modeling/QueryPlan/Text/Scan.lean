/-!
# Scan — reading a text from its front

A scan reads characters from the front of a text and leaves the rest, or refuses the text.  Nothing
is read twice: a scan that refuses refuses the whole text, so alternatives are told apart by the next
character.
-/

namespace QueryPlan

/-- A reader of the front of a text. -/
abbrev Scan (α : Type) := StateT (List Char) Option α

namespace Scan

variable {α : Type}

def refuse : Scan α :=
  fun _ => none

/-- Go on with a value, if there is one. -/
def ofOption (a : Option α) : Scan α :=
  match a with
  | some a => pure a
  | none => refuse

/-- The next character, left in place. -/
def peek? : Scan (Option Char) := do
  return (← get).head?

def next : Scan Char := fun s =>
  match s with
  | [] => none
  | c :: rest => some (c, rest)

/-- Read a given character if it is the next one; says whether it was. -/
def accept (c : Char) : Scan Bool := fun s =>
  match s with
  | [] => some (false, [])
  | d :: rest => if d = c then some (true, rest) else some (false, d :: rest)

def expect (c : Char) : Scan Unit := do
  if ← accept c then
    return
  else
    refuse

def word (w : List Char) : Scan Unit :=
  w.forM expect

/-- Read the characters that satisfy a condition, up to the first that does not. -/
def span (p : Char → Bool) : Scan (List Char) := fun s =>
  some (s.takeWhile p, s.dropWhile p)

/-- Repeat a step until it gives nothing, which it does at the latest when it has given something once
for every character of a bound. -/
def untilNone (step : Scan (Option α)) : List Char → Scan (List α)
  | [] => do
      match ← step with
      | none => return []
      | some _ => refuse
  | _ :: bound => do
      match ← step with
      | none => return []
      | some a => return a :: (← untilNone step bound)

/-- Repeat a step until it gives nothing.  A step that gives something has read a character, so the
text that is left is a bound. -/
def many (step : Scan (Option α)) : Scan (List α) := do
  untilNone step (← get)

/-- How the items of a list are written. -/
structure ListForm where
  /-- The character after the last item. -/
  close : Char
  /-- What may stand between items, brackets and commas. -/
  space : Scan Unit
  /-- Whether a comma may follow the last item. -/
  trailingComma : Bool

/-- The items after a comma or the opening bracket, of which there is at least one, and at most one for
every character of a bound. -/
def nonemptyList (form : ListForm) (item : Scan α) : List Char → Scan (List α)
  | [] => refuse
  | _ :: bound => do
      let first ← item
      form.space
      if ← accept ',' then
        form.space
        let closed ← if form.trailingComma then accept form.close else pure false
        if closed then
          return [first]
        else
          return first :: (← nonemptyList form item bound)
      else
        expect form.close
        return [first]

/-- The items between an opening bracket that has been read and the closing one. -/
def list (form : ListForm) (item : Scan α) : Scan (List α) := do
  form.space
  if ← accept form.close then
    return []
  else
    nonemptyList form item (← get)

def all? (scan : Scan α) (s : List Char) : Option α :=
  match scan s with
  | some (a, []) => some a
  | _ => none

end Scan

end QueryPlan
