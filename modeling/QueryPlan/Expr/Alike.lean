import QueryPlan.Expr.Identity

/-!
# Alike — when a plan for one template serves another

`Expr.alike a b` holds when a plan compiled from `a` may run for `b`.  A node is alike to itself.
Otherwise the two nodes must have the same type, kind, operator and names, and alike children at the
same positions.  Literals are compared by value only when their type is inlined into the query text
(`Ty.isInlined`); every other literal is bound at execution, so its value is irrelevant here.
-/

namespace QueryPlan

/-- Whether two members lists name the same members in the same order. -/
def sameMembers : List Member → List Member → Bool
  | [], [] => true
  | a :: as, b :: bs => a.same b && sameMembers as bs
  | _, _ => false

namespace Expr

mutual

/-- Whether a plan for the first template serves the second. -/
def alike : Expr → Expr → Bool
  | ⟨i, t, n⟩, ⟨j, u, m⟩ =>
      decide ((⟨i, t, n⟩ : Expr) = ⟨j, u, m⟩) || (t == u && alikeNodes t n m)
termination_by structural a => a

/-- Whether two nodes of the given type agree in kind and names, with alike children. -/
def alikeNodes (ty : Ty) : Node Expr → Node Expr → Bool
  | .binary op m l r c, .binary op' m' l' r' c' =>
      op == op' && m == m' && alikeOption c c' && alike l l' && alike r r'
  | .unary op m e, .unary op' m' e' => op == op' && m == m' && alike e e'
  | .call m o as, .call m' o' as' => m == m' && alikeOption o o' && alikeList as as'
  | .invoke t as, .invoke t' as' => alike t t' && alikeList as as'
  | .conditional t a b, .conditional t' a' b' => alike t t' && alike a a' && alike b b'
  | .constant v, .constant v' => !ty.isInlined || v.agrees v'
  | .member m o, .member m' o' => m.same m' && alikeOption o o'
  | .construct ⟨c, as, ms⟩, .construct ⟨c', as', ms'⟩ =>
      c == c' && sameMembers ms ms' && alikeList as as'
  | .memberInit ⟨c, as, ms⟩ bs, .memberInit ⟨c', as', ms'⟩ bs' =>
      c == c' && sameMembers ms ms' && alikeList as as' && alikeBindings bs bs'
  | .listInit ⟨c, as, ms⟩ is, .listInit ⟨c', as', ms'⟩ is' =>
      c == c' && sameMembers ms ms' && alikeList as as' && alikeInits is is'
  | .newArray k es, .newArray k' es' => k == k' && alikeList es es'
  | .lambda ps b, .lambda ps' b' => ps == ps' && alike b b'
  | .parameter n, .parameter n' => n == n'
  | .typeIs e t, .typeIs e' t' => t == t' && alike e e'
  | _, _ => false
termination_by structural a => a

def alikeOption : Option Expr → Option Expr → Bool
  | none, none => true
  | some a, some b => alike a b
  | _, _ => false
termination_by structural a => a

def alikeList : List Expr → List Expr → Bool
  | [], [] => true
  | a :: as, b :: bs => alike a b && alikeList as bs
  | _, _ => false
termination_by structural a => a

/-- Bindings of the same sort on the same member, with alike values. -/
def alikeBinding : Binding Expr → Binding Expr → Bool
  | .assign m v, .assign m' v' => m.same m' && alike v v'
  | .nested m bs, .nested m' bs' => m.same m' && alikeBindings bs bs'
  | .elements m is, .elements m' is' => m.same m' && alikeInits is is'
  | _, _ => false
termination_by structural a => a

def alikeBindings : List (Binding Expr) → List (Binding Expr) → Bool
  | [], [] => true
  | a :: as, b :: bs => alikeBinding a b && alikeBindings as bs
  | _, _ => false
termination_by structural a => a

/-- Calls of the same method with alike arguments. -/
def alikeInit : ElementInit Expr → ElementInit Expr → Bool
  | ⟨m, as⟩, ⟨m', as'⟩ => m == m' && alikeList as as'
termination_by structural a => a

def alikeInits : List (ElementInit Expr) → List (ElementInit Expr) → Bool
  | [], [] => true
  | a :: as, b :: bs => alikeInit a b && alikeInits as bs
  | _, _ => false
termination_by structural a => a

end

end Expr
end QueryPlan
