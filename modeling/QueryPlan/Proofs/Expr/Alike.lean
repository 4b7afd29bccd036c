import Mathlib.Data.List.Forall2
import QueryPlan.Expr.Alike
import QueryPlan.Proofs.Expr.Position

/-!
# Alike — what alike templates have in common

`Expr.alike` is decided by one recursion over every kind of node.  `NodesRelated R L` is the same
comparison for one layer only: nodes of one kind with the same operator and names, whose children are
related by `R` and whose literals are related by `L`.

Alike templates may differ in literals that are bound as parameters.  `Interchangeable` says that two
alike templates carry literals that fit their types, so that even such literals agree in everything
that compilation looks at.
-/

namespace QueryPlan

/-! ## One layer -/

/-- Bindings of one sort; assignments are to members of one name, with related values. -/
inductive BindingsRelated (R : Expr → Expr → Prop) : Binding Expr → Binding Expr → Prop where
  | assign {m m' : Member} {value value' : Expr} (name : m.name = m'.name)
      (related : R value value') :
      BindingsRelated R (.assign m value) (.assign m' value')
  | nested {m m' : Member} {bs bs' : List (Binding Expr)} :
      BindingsRelated R (.nested m bs) (.nested m' bs')
  | elements {m m' : Member} {is is' : List (ElementInit Expr)} :
      BindingsRelated R (.elements m is) (.elements m' is')

/-- Nodes of one kind, with the same operator and names, whose children and literals are related. -/
inductive NodesRelated (R : Expr → Expr → Prop) (L : Value → Value → Prop) :
    Node Expr → Node Expr → Prop where
  | binary {op : BinaryOp} {method : Option Method} {l r l' r' : Expr} {c c' : Option Expr}
      (left : R l l') (right : R r r') (conversion : Option.Rel R c c') :
      NodesRelated R L (.binary op method l r c) (.binary op method l' r' c')
  | unary {op : UnaryOp} {method : Option Method} {e e' : Expr} (operand : R e e') :
      NodesRelated R L (.unary op method e) (.unary op method e')
  | call {method : Method} {o o' : Option Expr} {as as' : List Expr} (object : Option.Rel R o o')
      (args : List.Forall₂ R as as') :
      NodesRelated R L (.call method o as) (.call method o' as')
  | invoke {t t' : Expr} {as as' : List Expr} (target : R t t') (args : List.Forall₂ R as as') :
      NodesRelated R L (.invoke t as) (.invoke t' as')
  | conditional {t a b t' a' b' : Expr} (test : R t t') (ifTrue : R a a') (ifFalse : R b b') :
      NodesRelated R L (.conditional t a b) (.conditional t' a' b')
  | constant {v v' : Value} (literal : L v v') : NodesRelated R L (.constant v) (.constant v')
  | member {m m' : Member} {o o' : Option Expr} (name : m.name = m'.name)
      (object : Option.Rel R o o') :
      NodesRelated R L (.member m o) (.member m' o')
  | construct {c : Constructor} {as as' : List Expr} {ms ms' : List Member}
      (names : ms.map (·.name) = ms'.map (·.name)) (args : List.Forall₂ R as as') :
      NodesRelated R L (.construct ⟨c, as, ms⟩) (.construct ⟨c, as', ms'⟩)
  | memberInit {c : Constructor} {as as' : List Expr} {ms ms' : List Member}
      {bs bs' : List (Binding Expr)} (args : List.Forall₂ R as as')
      (bindings : List.Forall₂ (BindingsRelated R) bs bs') :
      NodesRelated R L (.memberInit ⟨c, as, ms⟩ bs) (.memberInit ⟨c, as', ms'⟩ bs')
  | listInit {c : Constructor} {as as' : List Expr} {ms ms' : List Member}
      {is is' : List (ElementInit Expr)} (args : List.Forall₂ R as as') :
      NodesRelated R L (.listInit ⟨c, as, ms⟩ is) (.listInit ⟨c, as', ms'⟩ is')
  | newArray {kind : ArrayKind} {es es' : List Expr} (elements : List.Forall₂ R es es') :
      NodesRelated R L (.newArray kind es) (.newArray kind es')
  | lambda {params : List Param} {b b' : Expr} (body : R b b') :
      NodesRelated R L (.lambda params b) (.lambda params b')
  | parameter {name : String} : NodesRelated R L (.parameter name) (.parameter name)
  | typeIs {e e' : Expr} {tested : Ty} (operand : R e e') :
      NodesRelated R L (.typeIs e tested) (.typeIs e' tested)

/-- Related nodes are of one kind. -/
theorem NodesRelated.kind_eq {R : Expr → Expr → Prop} {L : Value → Value → Prop}
    {n n' : Node Expr} (h : NodesRelated R L n n') : n.kind = n'.kind := by
  cases h <;> rfl

/-! ## Alike templates -/

theorem names_of_sameMembers {ms ms' : List Member} (h : sameMembers ms ms' = true) :
    ms.map (·.name) = ms'.map (·.name) := by
  fun_induction sameMembers ms ms' with
  | case1 => rfl
  | case2 m ms m' ms' ih =>
      simp only [Bool.and_eq_true, Member.same, beq_iff_eq] at h
      simp only [List.map_cons, h.1.2, ih h.2]
  | case3 => cases h

namespace Expr

theorem alike_refl (e : Expr) : e.alike e = true := by
  rcases e with ⟨id, ty, node⟩
  simp [alike]

/-- Alike templates, as a relation. -/
abbrev Alike (a b : Expr) : Prop :=
  a.alike b = true

/-- Literals of a type that alike templates may carry at one position. -/
def LiteralsAlike (ty : Ty) (v v' : Value) : Prop :=
  v = v' ∨ ty.isInlined = false ∨ v.agrees v' = true

theorem rel_of_alikeOption {o o' : Option Expr} (h : alikeOption o o' = true) :
    Option.Rel Alike o o' := by
  cases o with
  | none =>
      cases o' with
      | none => exact .none
      | some b => cases h
  | some a =>
      cases o' with
      | none => cases h
      | some b => exact .some h

theorem forall₂_of_alikeList {as bs : List Expr} (h : alikeList as bs = true) :
    List.Forall₂ Alike as bs := by
  induction as generalizing bs with
  | nil =>
      cases bs with
      | nil => exact .nil
      | cons b bs => cases h
  | cons a as ih =>
      cases bs with
      | nil => cases h
      | cons b bs =>
          simp only [alikeList, Bool.and_eq_true] at h
          exact .cons h.1 (ih h.2)

theorem bindingsRelated_of_alikeBinding {b b' : Binding Expr} (h : alikeBinding b b' = true) :
    BindingsRelated Alike b b' := by
  unfold alikeBinding at h
  split at h
  · simp only [Member.same, Bool.and_eq_true, beq_iff_eq] at h
    exact .assign h.1.2 h.2
  · exact .nested
  · exact .elements
  · cases h

theorem forall₂_of_alikeBindings {bs bs' : List (Binding Expr)}
    (h : alikeBindings bs bs' = true) : List.Forall₂ (BindingsRelated Alike) bs bs' := by
  induction bs generalizing bs' with
  | nil =>
      cases bs' with
      | nil => exact .nil
      | cons b' bs' => cases h
  | cons b bs ih =>
      cases bs' with
      | nil => cases h
      | cons b' bs' =>
          simp only [alikeBindings, Bool.and_eq_true] at h
          exact .cons (bindingsRelated_of_alikeBinding h.1) (ih h.2)

theorem related_of_alikeNodes {ty : Ty} {n n' : Node Expr} (h : alikeNodes ty n n' = true) :
    NodesRelated Alike (LiteralsAlike ty) n n' := by
  unfold alikeNodes at h
  split at h
  · simp only [Bool.and_eq_true, beq_iff_eq] at h
    rcases h with ⟨⟨⟨⟨rfl, rfl⟩, hc⟩, hl⟩, hr⟩
    exact .binary hl hr (rel_of_alikeOption hc)
  · simp only [Bool.and_eq_true, beq_iff_eq] at h
    rcases h with ⟨⟨rfl, rfl⟩, he⟩
    exact .unary he
  · simp only [Bool.and_eq_true, beq_iff_eq] at h
    rcases h with ⟨⟨rfl, ho⟩, has⟩
    exact .call (rel_of_alikeOption ho) (forall₂_of_alikeList has)
  · simp only [Bool.and_eq_true] at h
    exact .invoke h.1 (forall₂_of_alikeList h.2)
  · simp only [Bool.and_eq_true] at h
    exact .conditional h.1.1 h.1.2 h.2
  -- Literals of a type that is not inlined are not compared at all.
  · simp only [Bool.or_eq_true, Bool.not_eq_true'] at h
    exact .constant (.inr h)
  · simp only [Member.same, Bool.and_eq_true, beq_iff_eq] at h
    exact .member h.1.2 (rel_of_alikeOption h.2)
  · simp only [Bool.and_eq_true, beq_iff_eq] at h
    rcases h with ⟨⟨rfl, hms⟩, has⟩
    exact .construct (names_of_sameMembers hms) (forall₂_of_alikeList has)
  · simp only [Bool.and_eq_true, beq_iff_eq] at h
    rcases h with ⟨⟨⟨rfl, -⟩, has⟩, hbs⟩
    exact .memberInit (forall₂_of_alikeList has) (forall₂_of_alikeBindings hbs)
  · simp only [Bool.and_eq_true, beq_iff_eq] at h
    rcases h with ⟨⟨⟨rfl, -⟩, has⟩, -⟩
    exact .listInit (forall₂_of_alikeList has)
  · simp only [Bool.and_eq_true, beq_iff_eq] at h
    rcases h with ⟨rfl, hes⟩
    exact .newArray (forall₂_of_alikeList hes)
  · simp only [Bool.and_eq_true, beq_iff_eq] at h
    rcases h with ⟨rfl, hb⟩
    exact .lambda hb
  · simp only [beq_iff_eq] at h
    subst h
    exact .parameter
  · simp only [Bool.and_eq_true, beq_iff_eq] at h
    rcases h with ⟨rfl, he⟩
    exact .typeIs he
  · cases h

end Expr

/-- A node is related to itself by reflexive relations. -/
theorem NodesRelated.refl {R : Expr → Expr → Prop} {L : Value → Value → Prop}
    (hR : ∀ e, R e e) (hL : ∀ v, L v v) (n : Node Expr) : NodesRelated R L n n := by
  -- Everything optional or repeated is related to itself, part by part.
  have option : ∀ o : Option Expr, Option.Rel R o o := by
    intro o
    cases o with
    | none => exact .none
    | some e => exact .some (hR e)
  have list : ∀ es : List Expr, List.Forall₂ R es es := fun es =>
    List.forall₂_same.2 fun e _ => hR e
  have bindings : ∀ bs : List (Binding Expr), List.Forall₂ (BindingsRelated R) bs bs := by
    intro bs
    apply List.forall₂_same.2
    intro b _
    cases b with
    | assign m value => exact .assign rfl (hR value)
    | nested m bs => exact .nested
    | elements m is => exact .elements
  cases n with
  | binary op method l r c => exact .binary (hR l) (hR r) (option c)
  | unary op method e => exact .unary (hR e)
  | call method o as => exact .call (option o) (list as)
  | invoke t as => exact .invoke (hR t) (list as)
  | conditional t a b => exact .conditional (hR t) (hR a) (hR b)
  | constant v => exact .constant (hL v)
  | member m o => exact .member rfl (option o)
  | construct construction => exact .construct rfl (list construction.args)
  | memberInit construction bs => exact .memberInit (list construction.args) (bindings bs)
  | listInit construction is => exact .listInit (list construction.args)
  | newArray kind es => exact .newArray (list es)
  | lambda params b => exact .lambda (hR b)
  | parameter name => exact .parameter
  | typeIs e tested => exact .typeIs (hR e)

/-- Alike templates have the same type, and their nodes agree in one layer. -/
theorem Expr.related_of_alike {a b : Expr} (h : a.alike b = true) :
    a.ty = b.ty ∧ NodesRelated Alike (LiteralsAlike a.ty) a.node b.node := by
  rcases a with ⟨i, t, n⟩
  rcases b with ⟨j, u, m⟩
  simp only [alike, Bool.or_eq_true, decide_eq_true_eq, Bool.and_eq_true, beq_iff_eq] at h
  -- One object is alike to itself without a comparison, even when its literals do not agree with
  -- themselves.
  rcases h with heq | ⟨rfl, hnodes⟩
  · cases heq
    exact ⟨rfl, .refl alike_refl (fun _ => .inl rfl) n⟩
  · exact ⟨rfl, related_of_alikeNodes hnodes⟩

/-! ## Literals that fit their types -/

/-- A literal fits its type.  Integers and texts may be null, environments are captured, a table is
the one that its element type is mapped to, and every other literal is a scalar. -/
def Fits (models : Ty → Model) (ty : Ty) (value : Value) : Prop :=
  match ty with
  | .int32 => value = .null ∨ ∃ v, value = .int v
  | .text => value = .null ∨ ∃ v, value = .text v
  | .environment => ∃ env, value = .closure env
  | .table element => value = .table ⟨models element, element⟩
  | _ => value.isScalar = true

/-- Every literal of a template fits its type. -/
def LiteralsFit (models : Ty → Model) (t : Expr) : Prop :=
  ∀ path id ty value, t.resolve? path = some ⟨id, ty, .constant value⟩ → Fits models ty value

namespace LiteralsFit

variable {models : Ty → Model} {t e : Expr}

theorem of_resolve? {path : Path} (h : LiteralsFit models t) (hpath : t.resolve? path = some e) :
    LiteralsFit models e := by
  intro rest id ty value hrest
  exact h (path ++ rest) id ty value (Expr.resolve?_trans hpath hrest)

theorem of_mem_children (h : LiteralsFit models t) (hmem : e ∈ t.children) :
    LiteralsFit models e := by
  rcases List.getElem?_of_mem hmem with ⟨index, hindex⟩
  have hpath : t.resolve? [index] = some e := by
    rw [Expr.resolve?_cons, hindex]
    exact e.resolve?_nil
  exact h.of_resolve? hpath

theorem literal {id : Nat} {ty : Ty} {value : Value} (h : Fits models ty value) :
    LiteralsFit models ⟨id, ty, .constant value⟩ := by
  intro path id' ty' value' hpath
  cases path with
  | nil =>
      cases (Expr.resolve?_nil _).symm.trans hpath
      exact h
  | cons index rest =>
      rw [Expr.resolve?_cons] at hpath
      cases hpath

/-- Literals of a node that is none itself are those of its children. -/
theorem node {id : Nat} {ty : Ty} {n : Node Expr} (noLiteral : ∀ value, n ≠ .constant value)
    (below : ∀ c ∈ n.children, LiteralsFit models c) : LiteralsFit models ⟨id, ty, n⟩ := by
  intro path id' ty' value hpath
  cases path with
  | nil =>
      cases (Expr.resolve?_nil _).symm.trans hpath
      exact absurd rfl (noLiteral value)
  | cons index rest =>
      rw [Expr.resolve?_cons] at hpath
      rcases Option.bind_eq_some_iff.1 hpath with ⟨child, hchild, hrest⟩
      exact below child (List.mem_of_getElem? hchild) rest id' ty' value hrest

end LiteralsFit

/-- Literals of a type that compilation cannot tell apart. -/
inductive SameUse (ty : Ty) : Value → Value → Prop where
  | equal {v : Value} : SameUse ty v v
  | closures {env env' : Env Value} (notInlined : ty.isInlined = false) :
      SameUse ty (.closure env) (.closure env')
  | scalars {v v' : Value} (notInlined : ty.isInlined = false) (scalar : v.isScalar = true)
      (scalar' : v'.isScalar = true) :
      SameUse ty v v'

namespace SameUse

variable {ty : Ty} {v v' : Value}

theorem eq_of_isInlined (h : SameUse ty v v') (inlined : ty.isInlined = true) : v = v' := by
  cases h with
  | equal => rfl
  | closures notInlined => simp [inlined] at notInlined
  | scalars notInlined => simp [inlined] at notInlined

theorem isScalar_eq (h : SameUse ty v v') : v.isScalar = v'.isScalar := by
  cases h with
  | equal => rfl
  | closures => rfl
  | scalars notInlined scalar scalar' => rw [scalar, scalar']

end SameUse

/-- Literals of an inlined type are compared by value, and every other type determines what its
literals are used for. -/
theorem sameUse_of_fits {models : Ty → Model} {ty : Ty} {v v' : Value} (h : Fits models ty v)
    (h' : Fits models ty v') (alike : Expr.LiteralsAlike ty v v') : SameUse ty v v' := by
  cases ty with
  -- Both literals are null or both are integers, and these were compared.
  | int32 =>
      have heq : v = v' := by
        rcases h with rfl | ⟨a, rfl⟩ <;> rcases h' with rfl | ⟨b, rfl⟩ <;>
          simp_all [Expr.LiteralsAlike, Ty.isInlined, Value.agrees]
      exact heq ▸ .equal
  | text =>
      have heq : v = v' := by
        rcases h with rfl | ⟨a, rfl⟩ <;> rcases h' with rfl | ⟨b, rfl⟩ <;>
          simp_all [Expr.LiteralsAlike, Ty.isInlined, Value.agrees]
      exact heq ▸ .equal
  -- Environments may differ in every captured value; only their kind is used.
  | environment =>
      rcases h with ⟨env, rfl⟩
      rcases h' with ⟨env', rfl⟩
      exact .closures rfl
  | table element =>
      cases h
      cases h'
      exact .equal
  | _ => exact .scalars rfl h h'

/-! ## Interchangeable templates -/

/-- Alike templates whose literals fit their types. -/
structure Interchangeable (models : Ty → Model) (a b : Expr) : Prop where
  alike : a.alike b = true
  left : LiteralsFit models a
  right : LiteralsFit models b

section Related

variable {models : Ty → Model}

theorem option_interchangeable {o o' : Option Expr} (h : Option.Rel Expr.Alike o o')
    (left : ∀ e ∈ o.toList, LiteralsFit models e) (right : ∀ e ∈ o'.toList, LiteralsFit models e) :
    Option.Rel (Interchangeable models) o o' := by
  cases h with
  | none => exact .none
  | some hab => exact .some ⟨hab, left _ (by simp), right _ (by simp)⟩

theorem forall₂_interchangeable {as bs : List Expr} (h : List.Forall₂ Expr.Alike as bs)
    (left : ∀ e ∈ as, LiteralsFit models e) (right : ∀ e ∈ bs, LiteralsFit models e) :
    List.Forall₂ (Interchangeable models) as bs := by
  induction h with
  | nil => exact .nil
  | cons hab _ ih =>
      rw [List.forall_mem_cons] at left right
      exact .cons ⟨hab, left.1, right.1⟩ (ih left.2 right.2)

theorem bindings_interchangeable {bs bs' : List (Binding Expr)}
    (h : List.Forall₂ (BindingsRelated Expr.Alike) bs bs')
    (left : ∀ e ∈ Binding.childrenOf bs, LiteralsFit models e)
    (right : ∀ e ∈ Binding.childrenOf bs', LiteralsFit models e) :
    List.Forall₂ (BindingsRelated (Interchangeable models)) bs bs' := by
  induction h with
  | nil => exact .nil
  | cons hab _ ih =>
      simp only [Binding.childrenOf, List.mem_append] at left right
      refine .cons ?_ (ih (fun e he => left e (.inr he)) fun e he => right e (.inr he))
      cases hab with
      | assign name hvalue =>
          exact .assign name ⟨hvalue, left _ (.inl (by simp [Binding.children])),
            right _ (.inl (by simp [Binding.children]))⟩
      | nested => exact .nested
      | elements => exact .elements

/-- One layer of interchangeable templates: their children are interchangeable again. -/
theorem Interchangeable.related {a b : Expr} (h : Interchangeable models a b) :
    a.ty = b.ty ∧ NodesRelated (Interchangeable models) (SameUse a.ty) a.node b.node := by
  rcases Expr.related_of_alike h.alike with ⟨hty, hnodes⟩
  refine ⟨hty, ?_⟩
  -- Literals that fit are handed down to the children, layer by layer.
  have left : ∀ e ∈ a.children, LiteralsFit models e := fun e => h.left.of_mem_children
  have right : ∀ e ∈ b.children, LiteralsFit models e := fun e => h.right.of_mem_children
  rcases a with ⟨i, ty, n⟩
  rcases b with ⟨j, ty', n'⟩
  cases hty
  cases hnodes with
  | binary hl hr hc =>
      simp only [Expr.children, Node.children, List.forall_mem_cons] at left right
      exact .binary ⟨hl, left.1, right.1⟩ ⟨hr, left.2.1, right.2.1⟩
        (option_interchangeable hc left.2.2 right.2.2)
  | unary he =>
      simp only [Expr.children, Node.children, List.forall_mem_singleton] at left right
      exact .unary ⟨he, left, right⟩
  | call ho has =>
      simp only [Expr.children, Node.children, List.forall_mem_append] at left right
      exact .call (option_interchangeable ho left.1 right.1)
        (forall₂_interchangeable has left.2 right.2)
  | invoke ht has =>
      simp only [Expr.children, Node.children, List.forall_mem_cons] at left right
      exact .invoke ⟨ht, left.1, right.1⟩ (forall₂_interchangeable has left.2 right.2)
  | conditional ht ha hb =>
      simp only [Expr.children, Node.children, List.forall_mem_cons] at left right
      exact .conditional ⟨ht, left.1, right.1⟩ ⟨ha, left.2.1, right.2.1⟩
        ⟨hb, left.2.2.1, right.2.2.1⟩
  | constant hv =>
      have fits := h.left [] i ty _ (Expr.resolve?_nil _)
      have fits' := h.right [] j ty _ (Expr.resolve?_nil _)
      exact .constant (sameUse_of_fits fits fits' hv)
  | member name ho => exact .member name (option_interchangeable ho left right)
  | construct names has => exact .construct names (forall₂_interchangeable has left right)
  | memberInit has hbs =>
      simp only [Expr.children, Node.children, List.forall_mem_append] at left right
      exact .memberInit (forall₂_interchangeable has left.1 right.1)
        (bindings_interchangeable hbs left.2 right.2)
  | listInit has =>
      simp only [Expr.children, Node.children, List.forall_mem_append] at left right
      exact .listInit (forall₂_interchangeable has left.1 right.1)
  | newArray hes => exact .newArray (forall₂_interchangeable hes left right)
  | lambda hb =>
      simp only [Expr.children, Node.children, List.forall_mem_singleton] at left right
      exact .lambda ⟨hb, left, right⟩
  | parameter => exact .parameter
  | typeIs he =>
      simp only [Expr.children, Node.children, List.forall_mem_singleton] at left right
      exact .typeIs ⟨he, left, right⟩

end Related

end QueryPlan
