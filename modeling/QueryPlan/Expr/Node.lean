import QueryPlan.Expr.Kind
import QueryPlan.Value

/-!
# Node — one layer of template syntax

`Node α` is a template node whose child positions hold values of type `α`.  Its children have a
fixed order, the one that paths count in:

* receivers and targets come before arguments, a conversion comes after both operands;
* constructor arguments come before the values of bindings and initializers, and nested bindings
  contribute their values in place.
-/

namespace QueryPlan

variable {α : Type}

/-- A constructor call; `members` names the members of an anonymous shape. -/
structure Construction (α : Type) where
  ctor : Constructor
  args : List α
  members : List Member

structure ElementInit (α : Type) where
  addMethod : Method
  args : List α

inductive Binding (α : Type) where
  | assign (member : Member) (value : α)
  | nested (member : Member) (bindings : List (Binding α))
  | elements (member : Member) (inits : List (ElementInit α))

namespace Binding

def isAssign : Binding α → Bool
  | assign _ _ => true
  | _ => false

mutual

/-- Values of a binding, nested ones in place. -/
def children : Binding α → List α
  | assign _ value => [value]
  | nested _ bindings => childrenOf bindings
  | elements _ inits => inits.flatMap ElementInit.args

def childrenOf : List (Binding α) → List α
  | [] => []
  | b :: rest => children b ++ childrenOf rest

end

end Binding

/-- A template node over child positions of type `α`. -/
inductive Node (α : Type) where
  | binary (op : BinaryOp) (method : Option Method) (left right : α) (conversion : Option α)
  | unary (op : UnaryOp) (method : Option Method) (operand : α)
  | call (method : Method) (object : Option α) (args : List α)
  | invoke (target : α) (args : List α)
  | conditional (test ifTrue ifFalse : α)
  | constant (value : Value)
  | member (member : Member) (object : Option α)
  | construct (construction : Construction α)
  | memberInit (construction : Construction α) (bindings : List (Binding α))
  | listInit (construction : Construction α) (inits : List (ElementInit α))
  | newArray (kind : ArrayKind) (elements : List α)
  | lambda (params : List Param) (body : α)
  | parameter (name : String)
  | typeIs (operand : α) (tested : Ty)

namespace Node

def kind : Node α → Kind
  | binary op .. => .binary op
  | unary op .. => .unary op
  | call .. => .call
  | invoke .. => .invoke
  | conditional .. => .conditional
  | constant .. => .constant
  | member .. => .member
  | construct .. => .construct
  | memberInit .. => .memberInit
  | listInit .. => .listInit
  | newArray kind _ => .newArray kind
  | lambda .. => .lambda
  | parameter .. => .parameter
  | typeIs .. => .typeIs

def children : Node α → List α
  | binary _ _ left right conversion => left :: right :: conversion.toList
  | unary _ _ operand => [operand]
  | call _ object args => object.toList ++ args
  | invoke target args => target :: args
  | conditional test ifTrue ifFalse => [test, ifTrue, ifFalse]
  | constant _ => []
  | member _ object => object.toList
  | construct construction => construction.args
  | memberInit construction bindings => construction.args ++ Binding.childrenOf bindings
  | listInit construction inits => construction.args ++ inits.flatMap ElementInit.args
  | newArray _ elements => elements
  | lambda _ body => [body]
  | parameter _ => []
  | typeIs operand _ => [operand]

end Node

/-! ## Children are smaller -/

namespace Binding

mutual

theorem sizeOf_lt_of_mem_children [SizeOf α] :
    ∀ (b : Binding α) {c : α}, c ∈ b.children → sizeOf c < sizeOf b
  | assign _ value, c, h => by
      simp only [children, List.mem_singleton] at h
      subst h
      simp only [assign.sizeOf_spec]
      omega
  | nested _ bindings, c, h => by
      have := sizeOf_lt_of_mem_childrenOf bindings (by simpa only [children] using h)
      simp only [nested.sizeOf_spec]
      omega
  | elements _ inits, c, h => by
      simp only [children, List.mem_flatMap] at h
      obtain ⟨init, hinit, hc⟩ := h
      have hlist := List.sizeOf_lt_of_mem hinit
      have harg := List.sizeOf_lt_of_mem hc
      cases init
      simp only [elements.sizeOf_spec, ElementInit.mk.sizeOf_spec] at *
      omega

theorem sizeOf_lt_of_mem_childrenOf [SizeOf α] :
    ∀ (bs : List (Binding α)) {c : α}, c ∈ childrenOf bs → sizeOf c < sizeOf bs
  | [], c, h => by simp [childrenOf] at h
  | b :: rest, c, h => by
      simp only [childrenOf, List.mem_append] at h
      simp only [List.cons.sizeOf_spec]
      rcases h with h | h
      · have := sizeOf_lt_of_mem_children b h
        omega
      · have := sizeOf_lt_of_mem_childrenOf rest h
        omega

end

end Binding

namespace Node

theorem sizeOf_lt_of_mem_toList [SizeOf α] {o : Option α} {c : α} (h : c ∈ o.toList) :
    sizeOf c < sizeOf o := by
  cases o with
  | none => simp at h
  | some a =>
      simp only [Option.toList_some, List.mem_singleton] at h
      subst h
      simp

theorem sizeOf_lt_of_mem_inits [SizeOf α] {inits : List (ElementInit α)} {c : α}
    (h : c ∈ inits.flatMap ElementInit.args) : sizeOf c < sizeOf inits := by
  obtain ⟨init, hinit, hc⟩ := List.mem_flatMap.1 h
  have hlist := List.sizeOf_lt_of_mem hinit
  have harg := List.sizeOf_lt_of_mem hc
  cases init
  simp only [ElementInit.mk.sizeOf_spec] at *
  omega

/-- A child is smaller than its node. -/
theorem sizeOf_lt_of_mem_children [SizeOf α] (n : Node α) {c : α} (h : c ∈ n.children) :
    sizeOf c < sizeOf n := by
  cases n with
  | binary op method left right conversion =>
      simp only [children, List.mem_cons] at h
      simp only [binary.sizeOf_spec]
      rcases h with rfl | rfl | h
      · omega
      · omega
      · have := sizeOf_lt_of_mem_toList h
        omega
  | unary op method operand =>
      simp only [children, List.mem_singleton] at h
      subst h
      simp only [unary.sizeOf_spec]
      omega
  | call method object args =>
      simp only [children, List.mem_append] at h
      simp only [call.sizeOf_spec]
      rcases h with h | h
      · have := sizeOf_lt_of_mem_toList h
        omega
      · have := List.sizeOf_lt_of_mem h
        omega
  | invoke target args =>
      simp only [children, List.mem_cons] at h
      simp only [invoke.sizeOf_spec]
      rcases h with rfl | h
      · omega
      · have := List.sizeOf_lt_of_mem h
        omega
  | conditional test ifTrue ifFalse =>
      simp only [children, List.mem_cons, List.not_mem_nil, or_false] at h
      simp only [conditional.sizeOf_spec]
      rcases h with rfl | rfl | rfl <;> omega
  | constant value => simp [children] at h
  | member m object =>
      simp only [children] at h
      have := sizeOf_lt_of_mem_toList h
      simp only [member.sizeOf_spec]
      omega
  | construct construction =>
      simp only [children] at h
      have := List.sizeOf_lt_of_mem h
      cases construction
      simp only [construct.sizeOf_spec, Construction.mk.sizeOf_spec] at *
      omega
  | memberInit construction bindings =>
      simp only [children, List.mem_append] at h
      cases construction
      simp only [memberInit.sizeOf_spec, Construction.mk.sizeOf_spec]
      rcases h with h | h
      · have := List.sizeOf_lt_of_mem h
        simp only at this
        omega
      · have := Binding.sizeOf_lt_of_mem_childrenOf bindings h
        omega
  | listInit construction inits =>
      simp only [children, List.mem_append] at h
      cases construction
      simp only [listInit.sizeOf_spec, Construction.mk.sizeOf_spec]
      rcases h with h | h
      · have := List.sizeOf_lt_of_mem h
        simp only at this
        omega
      · have := sizeOf_lt_of_mem_inits h
        omega
  | newArray kind elements =>
      simp only [children] at h
      have := List.sizeOf_lt_of_mem h
      simp only [newArray.sizeOf_spec]
      omega
  | lambda params body =>
      simp only [children, List.mem_singleton] at h
      subst h
      simp only [lambda.sizeOf_spec]
      omega
  | parameter name => simp [children] at h
  | typeIs operand tested =>
      simp only [children, List.mem_singleton] at h
      subst h
      simp only [typeIs.sizeOf_spec]
      omega

end Node

end QueryPlan
