import QueryPlan.Expr.Basic

/-!
# Identity — when two occurrences are the same node

`Expr.identical` decides equality of templates.  Serial numbers are compared first, so telling two
separately built nodes apart takes one step; and a node held at one place in memory is recognised
without being walked, so a template may share a node between many positions.
-/

namespace QueryPlan
namespace Expr

mutual

/-- Decides equality of templates. -/
def identical : Expr → Expr → Bool
  | ⟨i, t, n⟩, ⟨j, u, m⟩ => i == j && (t == u && identicalNodes n m)
termination_by structural a => a

/-- Decides equality of one layer and everything below it. -/
def identicalNodes : Node Expr → Node Expr → Bool
  | .binary op m l r c, .binary op' m' l' r' c' =>
      op == op' && m == m' && identical l l' && identical r r' && identicalOption c c'
  | .unary op m e, .unary op' m' e' => op == op' && m == m' && identical e e'
  | .call m o as, .call m' o' as' => m == m' && identicalOption o o' && identicalList as as'
  | .invoke t as, .invoke t' as' => identical t t' && identicalList as as'
  | .conditional t a b, .conditional t' a' b' =>
      identical t t' && identical a a' && identical b b'
  | .constant v, .constant v' => v == v'
  | .member m o, .member m' o' => m == m' && identicalOption o o'
  | .construct ⟨c, as, ms⟩, .construct ⟨c', as', ms'⟩ =>
      c == c' && ms == ms' && identicalList as as'
  | .memberInit ⟨c, as, ms⟩ bs, .memberInit ⟨c', as', ms'⟩ bs' =>
      c == c' && ms == ms' && identicalList as as' && identicalBindings bs bs'
  | .listInit ⟨c, as, ms⟩ is, .listInit ⟨c', as', ms'⟩ is' =>
      c == c' && ms == ms' && identicalList as as' && identicalInits is is'
  | .newArray k es, .newArray k' es' => k == k' && identicalList es es'
  | .lambda ps b, .lambda ps' b' => ps == ps' && identical b b'
  | .parameter n, .parameter n' => n == n'
  | .typeIs e t, .typeIs e' t' => t == t' && identical e e'
  | _, _ => false
termination_by structural a => a

def identicalOption : Option Expr → Option Expr → Bool
  | none, none => true
  | some a, some b => identical a b
  | _, _ => false
termination_by structural a => a

def identicalList : List Expr → List Expr → Bool
  | [], [] => true
  | a :: as, b :: bs => identical a b && identicalList as bs
  | _, _ => false
termination_by structural a => a

def identicalBinding : Binding Expr → Binding Expr → Bool
  | .assign m v, .assign m' v' => m == m' && identical v v'
  | .nested m bs, .nested m' bs' => m == m' && identicalBindings bs bs'
  | .elements m is, .elements m' is' => m == m' && identicalInits is is'
  | _, _ => false
termination_by structural a => a

def identicalBindings : List (Binding Expr) → List (Binding Expr) → Bool
  | [], [] => true
  | a :: as, b :: bs => identicalBinding a b && identicalBindings as bs
  | _, _ => false
termination_by structural a => a

def identicalInit : ElementInit Expr → ElementInit Expr → Bool
  | ⟨m, as⟩, ⟨m', as'⟩ => m == m' && identicalList as as'
termination_by structural a => a

def identicalInits : List (ElementInit Expr) → List (ElementInit Expr) → Bool
  | [], [] => true
  | a :: as, b :: bs => identicalInit a b && identicalInits as bs
  | _, _ => false
termination_by structural a => a

end

mutual

theorem identical_iff : ∀ a b : Expr, identical a b = true ↔ a = b
  | ⟨i, t, n⟩, ⟨j, u, m⟩ => by simp [identical, identicalNodes_iff n m]

theorem identicalNodes_iff : ∀ n m : Node Expr, identicalNodes n m = true ↔ n = m
  | .binary op m l r c, n => by
      cases n with
      | binary op' m' l' r' c' =>
          simp [identicalNodes, identical_iff l l', identical_iff r r', identicalOption_iff c c',
            and_assoc]
      | _ => simp [identicalNodes]
  | .unary op m e, n => by
      cases n with
      | unary op' m' e' => simp [identicalNodes, identical_iff e e', and_assoc]
      | _ => simp [identicalNodes]
  | .call m o as, n => by
      cases n with
      | call m' o' as' =>
          simp [identicalNodes, identicalOption_iff o o', identicalList_iff as as', and_assoc]
      | _ => simp [identicalNodes]
  | .invoke t as, n => by
      cases n with
      | invoke t' as' => simp [identicalNodes, identical_iff t t', identicalList_iff as as']
      | _ => simp [identicalNodes]
  | .conditional t a b, n => by
      cases n with
      | conditional t' a' b' =>
          simp [identicalNodes, identical_iff t t', identical_iff a a', identical_iff b b',
            and_assoc]
      | _ => simp [identicalNodes]
  | .constant v, n => by cases n <;> simp [identicalNodes]
  | .member m o, n => by
      cases n with
      | member m' o' => simp [identicalNodes, identicalOption_iff o o']
      | _ => simp [identicalNodes]
  | .construct ⟨c, as, ms⟩, n => by
      cases n with
      | construct construction =>
          obtain ⟨c', as', ms'⟩ := construction
          simp only [identicalNodes, Bool.and_eq_true, beq_iff_eq, identicalList_iff as as',
            Node.construct.injEq, Construction.mk.injEq]
          grind
      | _ => simp [identicalNodes]
  | .memberInit ⟨c, as, ms⟩ bs, n => by
      cases n with
      | memberInit construction bs' =>
          obtain ⟨c', as', ms'⟩ := construction
          simp only [identicalNodes, Bool.and_eq_true, beq_iff_eq, identicalList_iff as as',
            identicalBindings_iff bs bs', Node.memberInit.injEq, Construction.mk.injEq]
          grind
      | _ => simp [identicalNodes]
  | .listInit ⟨c, as, ms⟩ is, n => by
      cases n with
      | listInit construction is' =>
          obtain ⟨c', as', ms'⟩ := construction
          simp only [identicalNodes, Bool.and_eq_true, beq_iff_eq, identicalList_iff as as',
            identicalInits_iff is is', Node.listInit.injEq, Construction.mk.injEq]
          grind
      | _ => simp [identicalNodes]
  | .newArray k es, n => by
      cases n with
      | newArray k' es' => simp [identicalNodes, identicalList_iff es es']
      | _ => simp [identicalNodes]
  | .lambda ps b, n => by
      cases n with
      | lambda ps' b' => simp [identicalNodes, identical_iff b b']
      | _ => simp [identicalNodes]
  | .parameter name, n => by cases n <;> simp [identicalNodes]
  | .typeIs e t, n => by
      cases n with
      | typeIs e' t' => simp [identicalNodes, identical_iff e e', and_comm]
      | _ => simp [identicalNodes]

theorem identicalOption_iff : ∀ a b : Option Expr, identicalOption a b = true ↔ a = b
  | none, b => by cases b <;> simp [identicalOption]
  | some a, none => by simp [identicalOption]
  | some a, some b => by simp [identicalOption, identical_iff a b]

theorem identicalList_iff : ∀ as bs : List Expr, identicalList as bs = true ↔ as = bs
  | [], bs => by cases bs <;> simp [identicalList]
  | a :: as, [] => by simp [identicalList]
  | a :: as, b :: bs => by simp [identicalList, identical_iff a b, identicalList_iff as bs]

theorem identicalBinding_iff : ∀ a b : Binding Expr, identicalBinding a b = true ↔ a = b
  | .assign m v, b => by
      cases b with
      | assign m' v' => simp [identicalBinding, identical_iff v v']
      | _ => simp [identicalBinding]
  | .nested m bs, b => by
      cases b with
      | nested m' bs' => simp [identicalBinding, identicalBindings_iff bs bs']
      | _ => simp [identicalBinding]
  | .elements m is, b => by
      cases b with
      | elements m' is' => simp [identicalBinding, identicalInits_iff is is']
      | _ => simp [identicalBinding]

theorem identicalBindings_iff :
    ∀ as bs : List (Binding Expr), identicalBindings as bs = true ↔ as = bs
  | [], bs => by cases bs <;> simp [identicalBindings]
  | a :: as, [] => by simp [identicalBindings]
  | a :: as, b :: bs => by
      simp [identicalBindings, identicalBinding_iff a b, identicalBindings_iff as bs]

theorem identicalInit_iff : ∀ a b : ElementInit Expr, identicalInit a b = true ↔ a = b
  | ⟨m, as⟩, ⟨m', as'⟩ => by simp [identicalInit, identicalList_iff as as']

theorem identicalInits_iff :
    ∀ as bs : List (ElementInit Expr), identicalInits as bs = true ↔ as = bs
  | [], bs => by cases bs <;> simp [identicalInits]
  | a :: as, [] => by simp [identicalInits]
  | a :: as, b :: bs => by
      simp [identicalInits, identicalInit_iff a b, identicalInits_iff as bs]

end

instance : DecidableEq Expr := fun a b =>
  withPtrEqDecEq a b fun _ => decidable_of_iff (identical a b = true) (identical_iff a b)

end Expr
end QueryPlan
