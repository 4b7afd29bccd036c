import QueryPlan.Expr.Identity

/-!
# Path — positions in a template

A path lists child indices from the root of a template to one node.  Alike templates have aligned
children, so a path found in one of them names the corresponding node of the other.
-/

namespace QueryPlan

/-- Child indices from a root to one node. -/
abbrev Path := List Nat

namespace Path

/-- The path as messages show it: `$` for the root, then one dotted index per step. -/
def text (path : Path) : String :=
  path.foldl (fun out index => out ++ "." ++ toString index) "$"

end Path

namespace Expr

def resolve? (root : Expr) : Path → Option Expr
  | [] => some root
  | index :: rest =>
      match root.children[index]? with
      | some child => child.resolve? rest
      | none => none

/-- Take a search into the child at an index, unless the target is found already.  The buffer is left with
the path to the target, or with the step into the child taken back. -/
def searchChild (search : Path → Bool × Path) (state : Bool × Path) (index : Nat) : Bool × Path :=
  if state.1 then
    state
  else
    let (found, steps) := search (state.2 ++ [index])
    if found then (true, steps) else (false, steps.dropLast)

/-- Search a node and what is below it for the target, in child order.  The buffer holds the path to the
node, and if the target is found it is left with the path to that. -/
def locateInto (node target : Expr) (steps : Path) : Bool × Path :=
  if node = target then
    (true, steps)
  else
    node.children.attach.zipIdx.foldl (fun state (⟨child, _⟩, index) =>
      searchChild (fun steps => child.locateInto target steps) state index) (false, steps)
termination_by sizeOf node
decreasing_by
  rename_i h
  exact sizeOf_lt_of_mem_children h

/-- The first path, in child order, that leads to the target node. -/
def locate? (root target : Expr) : Option Path :=
  match root.locateInto target [] with
  | (true, steps) => some steps
  | (false, _) => none

/-- The path to a node that is reached from the root through first children alone. -/
def spinePath? (root target : Expr) : Option Path :=
  if root = target then
    some []
  else
    match _h : root.children with
    | [] => none
    | child :: _ => (child.spinePath? target).map (0 :: ·)
termination_by sizeOf root
decreasing_by exact sizeOf_lt_of_mem_children (_h ▸ List.mem_cons_self)

end Expr

end QueryPlan
