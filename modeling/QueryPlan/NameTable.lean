/-!
# NameTable — tables sorted by name

A table from names to values holds each name once, in order of names, so tables with the same
contents are equal.
-/

namespace QueryPlan

/-- A table from names to values, sorted by name. -/
abbrev NameTable (α : Type) := List (String × α)

namespace NameTable

variable {α : Type}

/-- Change the entry of a name, starting from a default when there is none. -/
def update (default : α) (change : α → α) (name : String) : NameTable α → NameTable α
  | [] => [(name, change default)]
  | (n, a) :: rest =>
      if name = n then
        (n, change a) :: rest
      else if name < n then
        (name, change default) :: (n, a) :: rest
      else
        (n, a) :: update default change name rest

def insert (name : String) (value : α) (table : NameTable α) : NameTable α :=
  update value (fun _ => value) name table

def erase (name : String) (table : NameTable α) : NameTable α :=
  table.filter (·.1 != name)

/-- The table with given entries; of several entries with one name the last one counts. -/
def ofList (entries : List (String × α)) : NameTable α :=
  entries.foldl (fun table entry => insert entry.1 entry.2 table) []

end NameTable

end QueryPlan
