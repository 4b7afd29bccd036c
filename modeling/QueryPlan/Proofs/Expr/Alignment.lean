import Mathlib.Data.List.Forall2
import QueryPlan.Proofs.Expr.Alike

/-!
# Alignment — alike templates agree node by node

The label of a node is what is left of it without its children, its literal and the types of the
members it names.  Two templates are alike exactly when they are one object, or have the same type
and label, literals that may stand for each other, and children that are alike position by position
(`alike_iff`).

Labels are nodes over `Unit`, so a label still says how many children each part of a node has.  This
is what keeps the children aligned, although a node flattens receivers, arguments, nested bindings
and initializers into one list of children.
-/

namespace QueryPlan

variable {α : Type}

/-! ## Labels -/

/-- A member as matching sees it: its own type does not count. -/
def Member.key (m : Member) : Member :=
  { m with ty := .unit }

theorem Member.same_iff {a b : Member} : a.same b = true ↔ a.key = b.key := by
  simp [Member.same, Member.key]

theorem sameMembers_iff {ms ms' : List Member} :
    sameMembers ms ms' = true ↔ ms.map Member.key = ms'.map Member.key := by
  fun_induction sameMembers ms ms' with
  | case1 => simp
  | case2 m ms m' ms' ih => simp [Member.same_iff, ih]
  | case3 ms ms' noNil noCons =>
      cases ms with
      | nil =>
          cases ms' with
          | nil => exact absurd rfl (noNil rfl)
          | cons m' ms' => simp
      | cons m ms =>
          cases ms' with
          | nil => simp
          | cons m' ms' => exact absurd rfl (noCons m ms m' ms' rfl)

/-- Forget a child. -/
def blank (_ : α) : Unit :=
  ()

theorem map_blank_eq_iff {as bs : List α} :
    as.map blank = bs.map blank ↔ as.length = bs.length := by
  constructor
  · intro h
    simpa using congrArg List.length h
  · intro h
    exact List.ext_getElem (by simpa using h) (by simp)

namespace Construction

def label (c : Construction α) : Construction Unit :=
  ⟨c.ctor, c.args.map blank, c.members.map Member.key⟩

end Construction

namespace ElementInit

def label (init : ElementInit α) : ElementInit Unit :=
  ⟨init.addMethod, init.args.map blank⟩

end ElementInit

namespace Binding

mutual

def label : Binding α → Binding Unit
  | assign m _ => assign m.key ()
  | nested m bs => nested m.key (labels bs)
  | elements m inits => elements m.key (inits.map ElementInit.label)

def labels : List (Binding α) → List (Binding Unit)
  | [] => []
  | b :: rest => label b :: labels rest

end

end Binding

namespace Node

/-- A node without its children, its literal and the types of its members. -/
def label : Node α → Node Unit
  | binary op method _ _ conversion => binary op method () () (conversion.map blank)
  | unary op method _ => unary op method ()
  | call method object args => call method (object.map blank) (args.map blank)
  | invoke _ args => invoke () (args.map blank)
  | conditional _ _ _ => conditional () () ()
  | constant _ => constant .null
  | member m object => member m.key (object.map blank)
  | construct c => construct c.label
  | memberInit c bindings => memberInit c.label (Binding.labels bindings)
  | listInit c inits => listInit c.label (inits.map ElementInit.label)
  | newArray kind elements => newArray kind (elements.map blank)
  | lambda params _ => lambda params ()
  | parameter name => parameter name
  | typeIs _ tested => typeIs () tested

theorem kind_label (n : Node α) : n.label.kind = n.kind := by
  cases n <;> rfl

end Node

/-! ## Labels count children -/

theorem flatMap_args_label (inits : List (ElementInit α)) :
    (inits.map ElementInit.label).flatMap ElementInit.args =
      (inits.flatMap ElementInit.args).map blank := by
  rw [List.flatMap_map, List.map_flatMap]
  rfl

namespace Binding

mutual

theorem children_label : ∀ b : Binding α, b.label.children = b.children.map blank
  | assign m value => by simp [label, children, blank]
  | nested m bs => by simp only [label, children, childrenOf_labels bs]
  | elements m inits => by simp only [label, children, flatMap_args_label]

theorem childrenOf_labels :
    ∀ bs : List (Binding α), childrenOf (labels bs) = (childrenOf bs).map blank
  | [] => by simp [labels, childrenOf]
  | b :: rest => by
      simp only [labels, childrenOf, children_label b, childrenOf_labels rest, List.map_append]

end

theorem length_children_of_label {b b' : Binding α} (h : b.label = b'.label) :
    b.children.length = b'.children.length := by
  rw [← map_blank_eq_iff, ← children_label, ← children_label, h]

end Binding

/-! ## Lists that are related part by part -/

section Parts

variable {R : α → α → Prop} {as bs as' bs' : List α} {p : Prop}

/-- Lists whose first parts have equal length are related exactly when both parts are. -/
theorem forall₂_append_iff (hlen : as.length = bs.length) :
    List.Forall₂ R (as ++ as') (bs ++ bs') ↔ List.Forall₂ R as bs ∧ List.Forall₂ R as' bs' := by
  constructor
  · intro h
    have hfirst := List.forall₂_take as.length h
    have hrest := List.forall₂_drop as.length h
    rw [List.take_left, hlen, List.take_left] at hfirst
    rw [List.drop_left, hlen, List.drop_left] at hrest
    exact ⟨hfirst, hrest⟩
  · rintro ⟨hfirst, hrest⟩
    exact List.rel_append hfirst hrest

/-- Two parts of a node, each with a condition that fixes its number of children. -/
theorem and_forall₂_append (hlen : p → as.length = bs.length) (q : Prop) (as' bs' : List α) :
    (p ∧ List.Forall₂ R as bs) ∧ q ∧ List.Forall₂ R as' bs' ↔
      (p ∧ q) ∧ List.Forall₂ R (as ++ as') (bs ++ bs') := by
  constructor
  · rintro ⟨⟨hp, hfirst⟩, hq, hrest⟩
    exact ⟨⟨hp, hq⟩, List.rel_append hfirst hrest⟩
  · rintro ⟨⟨hp, hq⟩, h⟩
    rcases (forall₂_append_iff (hlen hp)).1 h with ⟨hfirst, hrest⟩
    exact ⟨⟨hp, hfirst⟩, hq, hrest⟩

end Parts

/-! ## Matching -/

namespace Expr

theorem alikeList_iff {as bs : List Expr} :
    alikeList as bs = true ↔ List.Forall₂ Alike as bs := by
  constructor
  · exact forall₂_of_alikeList
  · intro h
    induction h with
    | nil => rfl
    | cons hab _ ih => rw [alikeList, hab, ih]; rfl

theorem alikeList_iff_label {as bs : List Expr} :
    alikeList as bs = true ↔ as.map blank = bs.map blank ∧ List.Forall₂ Alike as bs := by
  rw [alikeList_iff, map_blank_eq_iff]
  constructor
  · intro h
    exact ⟨h.length_eq, h⟩
  · exact And.right

theorem alikeOption_iff_label {o o' : Option Expr} :
    alikeOption o o' = true ↔
      o.map blank = o'.map blank ∧ List.Forall₂ Alike o.toList o'.toList := by
  cases o with
  | none => cases o' <;> simp [alikeOption]
  | some a => cases o' <;> simp [alikeOption, blank]

theorem alikeInit_iff_label {init init' : ElementInit Expr} :
    alikeInit init init' = true ↔
      init.label = init'.label ∧ List.Forall₂ Alike init.args init'.args := by
  rcases init with ⟨m, as⟩
  rcases init' with ⟨m', as'⟩
  simp only [alikeInit, Bool.and_eq_true, beq_iff_eq, alikeList_iff_label, ElementInit.label,
    ElementInit.mk.injEq, and_assoc]

theorem alikeInits_iff_label {inits inits' : List (ElementInit Expr)} :
    alikeInits inits inits' = true ↔
      inits.map ElementInit.label = inits'.map ElementInit.label ∧
        List.Forall₂ Alike (inits.flatMap ElementInit.args) (inits'.flatMap ElementInit.args) := by
  induction inits generalizing inits' with
  | nil => cases inits' <;> simp [alikeInits]
  | cons init rest ih =>
      cases inits' with
      | nil => simp [alikeInits]
      | cons init' rest' =>
          have hlen : init.label = init'.label → init.args.length = init'.args.length := by
            intro h
            exact map_blank_eq_iff.1 (congrArg ElementInit.args h)
          rw [alikeInits, Bool.and_eq_true, alikeInit_iff_label, ih, and_forall₂_append hlen]
          simp only [List.map_cons, List.cons.injEq, List.flatMap_cons]

mutual

theorem alikeBinding_iff_label : ∀ b b' : Binding Expr,
    alikeBinding b b' = true ↔ b.label = b'.label ∧ List.Forall₂ Alike b.children b'.children
  | .assign m value, b' => by
      cases b' <;>
        simp [alikeBinding, Binding.label, Binding.children, Member.same_iff]
  | .nested m bs, b' => by
      cases b' with
      | nested m' bs' =>
          simp only [alikeBinding, Binding.label, Binding.children, Bool.and_eq_true,
            Member.same_iff, alikeBindings_iff_label bs bs', Binding.nested.injEq, and_assoc]
      | _ => simp [alikeBinding, Binding.label]
  | .elements m inits, b' => by
      cases b' with
      | elements m' inits' =>
          simp only [alikeBinding, Binding.label, Binding.children, Bool.and_eq_true,
            Member.same_iff, alikeInits_iff_label, Binding.elements.injEq, and_assoc]
      | _ => simp [alikeBinding, Binding.label]

theorem alikeBindings_iff_label : ∀ bs bs' : List (Binding Expr),
    alikeBindings bs bs' = true ↔
      Binding.labels bs = Binding.labels bs' ∧
        List.Forall₂ Alike (Binding.childrenOf bs) (Binding.childrenOf bs')
  | [], bs' => by cases bs' <;> simp [alikeBindings, Binding.labels, Binding.childrenOf]
  | b :: rest, [] => by simp [alikeBindings, Binding.labels]
  | b :: rest, b' :: rest' => by
      rw [alikeBindings, Bool.and_eq_true, alikeBinding_iff_label b b',
        alikeBindings_iff_label rest rest',
        and_forall₂_append Binding.length_children_of_label]
      simp only [Binding.labels, Binding.childrenOf, List.cons.injEq]

end

/-- Literals of two nodes may stand for each other: their type is not inlined, or they agree. -/
def LiteralsAgree (ty : Ty) (n n' : Node Expr) : Prop :=
  ∀ v v', n = .constant v → n' = .constant v' → ty.isInlined = false ∨ v.agrees v' = true

theorem alikeNodes_iff {ty : Ty} {n n' : Node Expr} :
    alikeNodes ty n n' = true ↔
      n.label = n'.label ∧ LiteralsAgree ty n n' ∧
        List.Forall₂ Alike n.children n'.children := by
  -- Nodes of different kinds have different labels and are never alike.
  cases n with
  | binary op method l r c =>
      cases n' with
      | binary op' method' l' r' c' =>
          simp only [alikeNodes, Node.label, Node.children, LiteralsAgree, Bool.and_eq_true,
            beq_iff_eq, alikeOption_iff_label, Node.binary.injEq, List.forall₂_cons, Alike]
          grind
      | _ => simp [alikeNodes, Node.label]
  | unary op method e =>
      cases n' with
      | unary op' method' e' =>
          simp [alikeNodes, Node.label, Node.children, LiteralsAgree, and_assoc]
      | _ => simp [alikeNodes, Node.label]
  | call method o as =>
      cases n' with
      | call method' o' as' =>
          -- A receiver shifts the arguments by one, so it must be there on both sides or on none.
          have hlen : o.map blank = o'.map blank → o.toList.length = o'.toList.length := by
            cases o <;> cases o' <;> simp
          simp only [alikeNodes, Node.label, Node.children, LiteralsAgree, Bool.and_eq_true,
            beq_iff_eq, alikeOption_iff_label, alikeList_iff_label, Node.call.injEq, and_assoc]
          have parts := and_forall₂_append (R := Alike) hlen (as.map blank = as'.map blank) as as'
          grind
      | _ => simp [alikeNodes, Node.label]
  | invoke t as =>
      cases n' with
      | invoke t' as' =>
          simp only [alikeNodes, Node.label, Node.children, LiteralsAgree, Bool.and_eq_true,
            alikeList_iff_label, Node.invoke.injEq, List.forall₂_cons, Alike]
          grind
      | _ => simp [alikeNodes, Node.label]
  | conditional t a b =>
      cases n' with
      | conditional t' a' b' =>
          simp [alikeNodes, Node.label, Node.children, LiteralsAgree, and_assoc]
      | _ => simp [alikeNodes, Node.label]
  | constant v => cases n' <;> simp [alikeNodes, Node.label, Node.children, LiteralsAgree]
  | member m o =>
      cases n' with
      | member m' o' =>
          simp [alikeNodes, Node.label, Node.children, LiteralsAgree, Member.same_iff,
            alikeOption_iff_label, and_assoc]
      | _ => simp [alikeNodes, Node.label]
  | construct c =>
      cases n' with
      | construct c' =>
          rcases c with ⟨ctor, as, ms⟩
          rcases c' with ⟨ctor', as', ms'⟩
          simp only [alikeNodes, Node.label, Node.children, LiteralsAgree, Bool.and_eq_true,
            beq_iff_eq, sameMembers_iff, alikeList_iff_label, Construction.label,
            Node.construct.injEq, Construction.mk.injEq]
          grind
      | _ => simp [alikeNodes, Node.label]
  | memberInit c bs =>
      cases n' with
      | memberInit c' bs' =>
          rcases c with ⟨ctor, as, ms⟩
          rcases c' with ⟨ctor', as', ms'⟩
          have hlen : as.map blank = as'.map blank → as.length = as'.length := map_blank_eq_iff.1
          -- Arguments come before what is bound; equal labels mean equally many of them.
          have parts := and_forall₂_append (R := Alike) hlen
            (Binding.labels bs = Binding.labels bs') (Binding.childrenOf bs)
            (Binding.childrenOf bs')
          simp only [alikeNodes, Node.label, Node.children, LiteralsAgree, Bool.and_eq_true,
            beq_iff_eq, sameMembers_iff, alikeList_iff_label, alikeBindings_iff_label,
            Construction.label, Node.memberInit.injEq, Construction.mk.injEq]
          grind
      | _ => simp [alikeNodes, Node.label]
  | listInit c inits =>
      cases n' with
      | listInit c' inits' =>
          rcases c with ⟨ctor, as, ms⟩
          rcases c' with ⟨ctor', as', ms'⟩
          have hlen : as.map blank = as'.map blank → as.length = as'.length := map_blank_eq_iff.1
          have parts := and_forall₂_append (R := Alike) hlen
            (inits.map ElementInit.label = inits'.map ElementInit.label)
            (inits.flatMap ElementInit.args) (inits'.flatMap ElementInit.args)
          simp only [alikeNodes, Node.label, Node.children, LiteralsAgree, Bool.and_eq_true,
            beq_iff_eq, sameMembers_iff, alikeList_iff_label, alikeInits_iff_label,
            Construction.label, Node.listInit.injEq, Construction.mk.injEq]
          grind
      | _ => simp [alikeNodes, Node.label]
  | newArray kind es =>
      cases n' with
      | newArray kind' es' =>
          simp [alikeNodes, Node.label, Node.children, LiteralsAgree, alikeList_iff_label,
            and_assoc]
      | _ => simp [alikeNodes, Node.label]
  | lambda params b =>
      cases n' with
      | lambda params' b' =>
          simp [alikeNodes, Node.label, Node.children, LiteralsAgree]
      | _ => simp [alikeNodes, Node.label]
  | parameter name =>
      cases n' <;> simp [alikeNodes, Node.label, Node.children, LiteralsAgree]
  | typeIs e t =>
      cases n' with
      | typeIs e' t' =>
          simp [alikeNodes, Node.label, Node.children, LiteralsAgree]
      | _ => simp [alikeNodes, Node.label]

/-- Templates are alike when they are one object, or agree in type, label and literal and have alike
children. -/
theorem alike_iff {a b : Expr} :
    a.alike b = true ↔
      a = b ∨ a.ty = b.ty ∧ a.node.label = b.node.label ∧ LiteralsAgree a.ty a.node b.node ∧
        List.Forall₂ Alike a.children b.children := by
  rcases a with ⟨i, t, n⟩
  rcases b with ⟨j, u, m⟩
  simp only [alike, Bool.or_eq_true, decide_eq_true_eq, Bool.and_eq_true, beq_iff_eq,
    alikeNodes_iff, children]

/-- Alike templates have the same type and label, and alike children. -/
theorem label_of_alike {a b : Expr} (h : a.alike b = true) :
    a.ty = b.ty ∧ a.node.label = b.node.label ∧ List.Forall₂ Alike a.children b.children := by
  rcases alike_iff.1 h with rfl | ⟨hty, hlabel, -, hchildren⟩
  · exact ⟨rfl, rfl, List.forall₂_same.2 fun e _ => alike_refl e⟩
  · exact ⟨hty, hlabel, hchildren⟩

theorem kind_of_alike {a b : Expr} (h : a.alike b = true) : a.kind = b.kind := by
  have hlabel : a.node.label = b.node.label := (label_of_alike h).2.1
  rw [kind, kind, ← a.node.kind_label, hlabel, Node.kind_label]

/-! ## Paths -/

theorem rel_getElem?_of_forall₂ {β : Type} {R : α → β → Prop} {as : List α} {bs : List β}
    (h : List.Forall₂ R as bs) (index : Nat) : Option.Rel R as[index]? bs[index]? := by
  induction h generalizing index with
  | nil => exact .none
  | cons hab _ ih =>
      cases index with
      | zero => exact .some hab
      | succ index => exact ih index

/-- A path leads to alike nodes of alike templates, or nowhere in both of them. -/
theorem rel_resolve?_of_alike {a b : Expr} (h : a.alike b = true) (path : Path) :
    Option.Rel Alike (a.resolve? path) (b.resolve? path) := by
  induction path generalizing a b with
  | nil =>
      rw [resolve?_nil, resolve?_nil]
      exact .some h
  | cons index rest ih =>
      rw [resolve?_cons, resolve?_cons]
      have hchild := rel_getElem?_of_forall₂ (label_of_alike h).2.2 index
      generalize a.children[index]? = c at hchild
      generalize b.children[index]? = d at hchild
      cases hchild with
      | none => exact .none
      | some hcd => exact ih hcd

/-- A path resolves in both of two alike templates or in neither, and the nodes reached are alike, of
one kind and type, with as many children each, which are alike position by position. -/
theorem paths_aligned {a b : Expr} (h : a.alike b = true) (path : Path) :
    ((a.resolve? path).isSome ↔ (b.resolve? path).isSome) ∧
      ∀ x y, a.resolve? path = some x → b.resolve? path = some y →
        x.alike y = true ∧ x.kind = y.kind ∧ x.ty = y.ty ∧
          x.children.length = y.children.length ∧
          ∀ (index : Nat) (c d : Expr), x.children[index]? = some c →
            y.children[index]? = some d → c.alike d = true := by
  have hnodes := rel_resolve?_of_alike h path
  generalize a.resolve? path = m at hnodes
  generalize b.resolve? path = n at hnodes
  cases hnodes with
  | none => simp
  | some hxy =>
      refine ⟨by simp, ?_⟩
      rintro x y ⟨⟩ ⟨⟩
      rcases label_of_alike hxy with ⟨hty, -, hchildren⟩
      refine ⟨hxy, kind_of_alike hxy, hty, hchildren.length_eq, ?_⟩
      intro index c d hc hd
      have hchild := rel_getElem?_of_forall₂ hchildren index
      rw [hc, hd] at hchild
      cases hchild with
      | some hcd => exact hcd

namespace Sample

/-- An invoice is made from a price, with a nested binding and a collection of lines.  The price
occurs as the argument of the constructor and once more inside a line. -/
def invoice (serial : Nat) (price : Int64) : Expr :=
  let invoiceTy : Ty := .named "Invoice"
  let customerTy : Ty := .named "Customer"
  let paid : Expr := ⟨serial, .int64, .constant (.long price)⟩
  let name : Expr := ⟨serial + 1, .text, .constant (.text "Ada")⟩
  let x : Expr := ⟨serial + 2, .int64, .parameter "x"⟩
  let identity : Expr := ⟨serial + 3, .int64, .lambda [⟨"x", .int64⟩] x⟩
  let total : Expr := ⟨serial + 4, .int64, .binary .add none x paid (some identity)⟩
  ⟨serial + 5, invoiceTy, .memberInit ⟨⟨invoiceTy, 1⟩, [paid], []⟩
    [.nested ⟨invoiceTy, "customer", customerTy⟩
        [.assign ⟨customerTy, "name", .text⟩ name],
      .elements ⟨invoiceTy, "lines", .list .int64⟩ [⟨⟨.list .int64, "add"⟩, [total]⟩]]⟩

end Sample

/-- The price inside the line of an invoice stands at the same path in every invoice. -/
theorem invoices_paths_aligned :
    let a := Sample.invoice 0 30
    let b := Sample.invoice 10 40
    let x : Expr := ⟨0, .int64, .constant (.long 30)⟩
    let y : Expr := ⟨10, .int64, .constant (.long 40)⟩
    a.alike b = true ∧ a.resolve? [2, 1] = some x ∧ b.resolve? [2, 1] = some y ∧
      x.alike y = true ∧ x.kind = y.kind ∧ x.ty = y.ty := by
  intro a b x y
  have alike : a.alike b = true := by decide +kernel
  obtain ⟨hxy, hkind, hty, -, -⟩ := (paths_aligned alike [2, 1]).2 x y rfl rfl
  exact ⟨alike, rfl, rfl, hxy, hkind, hty⟩

end Expr

end QueryPlan
