import QueryPlan.Expr.Node

/-!
# Expr — expression templates

A template is a tree of typed nodes.  Every node carries a serial number, so a node that occurs at
several positions of a template can be told from a copy built separately: two occurrences are the
same node exactly when they are equal, serial numbers included.
-/

namespace QueryPlan

structure Expr where
  /-- Serial number of the node. -/
  id : Nat
  /-- Static result type. -/
  ty : Ty
  node : Node Expr

namespace Expr

def kind (e : Expr) : Kind :=
  e.node.kind

def children (e : Expr) : List Expr :=
  e.node.children

theorem sizeOf_lt_of_mem_children {e c : Expr} (h : c ∈ e.children) : sizeOf c < sizeOf e := by
  have := e.node.sizeOf_lt_of_mem_children h
  cases e
  simp only [mk.sizeOf_spec] at *
  omega

def unquoted : Expr → Expr
  | ⟨_, _, .unary .quote _ operand⟩ => operand.unquoted
  | e => e

def quoteDepth : Expr → Nat
  | ⟨_, _, .unary .quote _ operand⟩ => operand.quoteDepth + 1
  | _ => 0

/-- Parameters and body, if the node under its quotes is a lambda. -/
def asLambda? (e : Expr) : Option (List Param × Expr) :=
  match e.unquoted.node with
  | .lambda params body => some (params, body)
  | _ => none

def asConstant? (e : Expr) : Option Value :=
  match e.node with
  | .constant value => some value
  | _ => none

end Expr

end QueryPlan
