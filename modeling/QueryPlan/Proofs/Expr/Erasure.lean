import QueryPlan.Proofs.Expr.Equivalence

/-!
# Erasure — matching compares whole trees

Matching walks two templates side by side and stops early where both hold one object.  Here it is
compared with a plain comparison of the two trees, which knows no objects:

* `Expr.erased` drops from a template the serial numbers, the literals and the types of the members it
  names; everything else stays, so equal erased templates agree in every kind, operator, type, name,
  parameter and length of a list;
* `Expr.InlinedAgree` compares the literals of inlined types position by position.

Templates are alike exactly when they are the same tree in this sense (`alike_iff_sameTree`).  The only
exception is a float that is no number in a literal of an inlined type: one object is alike to itself
there, although the literal does not agree with itself.
-/

namespace QueryPlan
namespace Expr

/-! ## Erased templates -/

mutual

/-- A template without serial numbers, literals and the types of the members it names. -/
def erased : Expr → Expr
  | ⟨_, ty, n⟩ => ⟨0, ty, erasedNode n⟩
termination_by structural e => e

def erasedNode : Node Expr → Node Expr
  | .binary op m l r c => .binary op m (erased l) (erased r) (erasedOption c)
  | .unary op m e => .unary op m (erased e)
  | .call m o as => .call m (erasedOption o) (erasedList as)
  | .invoke t as => .invoke (erased t) (erasedList as)
  | .conditional t a b => .conditional (erased t) (erased a) (erased b)
  | .constant _ => .constant .null
  | .member m o => .member m.key (erasedOption o)
  | .construct ⟨c, as, ms⟩ => .construct ⟨c, erasedList as, ms.map Member.key⟩
  | .memberInit ⟨c, as, ms⟩ bs =>
      .memberInit ⟨c, erasedList as, ms.map Member.key⟩ (erasedBindings bs)
  | .listInit ⟨c, as, ms⟩ is => .listInit ⟨c, erasedList as, ms.map Member.key⟩ (erasedInits is)
  | .newArray k es => .newArray k (erasedList es)
  | .lambda ps b => .lambda ps (erased b)
  | .parameter name => .parameter name
  | .typeIs e t => .typeIs (erased e) t
termination_by structural n => n

def erasedOption : Option Expr → Option Expr
  | none => none
  | some e => some (erased e)
termination_by structural o => o

def erasedList : List Expr → List Expr
  | [] => []
  | e :: es => erased e :: erasedList es
termination_by structural es => es

def erasedBinding : Binding Expr → Binding Expr
  | .assign m v => .assign m.key (erased v)
  | .nested m bs => .nested m.key (erasedBindings bs)
  | .elements m is => .elements m.key (erasedInits is)
termination_by structural b => b

def erasedBindings : List (Binding Expr) → List (Binding Expr)
  | [] => []
  | b :: bs => erasedBinding b :: erasedBindings bs
termination_by structural bs => bs

def erasedInit : ElementInit Expr → ElementInit Expr
  | ⟨m, as⟩ => ⟨m, erasedList as⟩
termination_by structural i => i

def erasedInits : List (ElementInit Expr) → List (ElementInit Expr)
  | [] => []
  | i :: is => erasedInit i :: erasedInits is
termination_by structural is => is

end

/-! ## One layer of an erased template

Erasing keeps the label of a node and erases its children, and nothing else is left to tell two erased
nodes apart. -/

theorem erasedOption_eq (o : Option Expr) : erasedOption o = o.map erased := by
  cases o <;> rfl

theorem erasedList_eq (es : List Expr) : erasedList es = es.map erased := by
  induction es with
  | nil => rfl
  | cons e es ih => rw [erasedList, ih, List.map_cons]

theorem erasedInits_eq (is : List (ElementInit Expr)) : erasedInits is = is.map erasedInit := by
  induction is with
  | nil => rfl
  | cons i is ih => rw [erasedInits, ih, List.map_cons]

theorem map_blank_erased (es : List Expr) : (es.map erased).map blank = es.map blank := by
  rw [List.map_map]
  rfl

theorem key_key (m : Member) : m.key.key = m.key := rfl

theorem label_erasedInit (i : ElementInit Expr) : (erasedInit i).label = i.label := by
  rcases i with ⟨m, as⟩
  rw [erasedInit, ElementInit.label, erasedList_eq, map_blank_erased, ElementInit.label]

theorem map_label_erasedInits (is : List (ElementInit Expr)) :
    (erasedInits is).map ElementInit.label = is.map ElementInit.label := by
  simp only [erasedInits_eq, List.map_map, Function.comp_def, label_erasedInit]

theorem args_erasedInit (i : ElementInit Expr) : (erasedInit i).args = i.args.map erased := by
  rcases i with ⟨m, as⟩
  rw [erasedInit, erasedList_eq]

theorem args_erasedInits (is : List (ElementInit Expr)) :
    (erasedInits is).flatMap ElementInit.args = (is.flatMap ElementInit.args).map erased := by
  simp only [erasedInits_eq, List.flatMap_map, List.map_flatMap, args_erasedInit]

mutual

theorem label_erasedBinding : ∀ b : Binding Expr, (erasedBinding b).label = b.label
  | .assign m v => by simp only [erasedBinding, Binding.label, key_key]
  | .nested m bs => by simp only [erasedBinding, Binding.label, key_key, labels_erasedBindings bs]
  | .elements m is => by
      simp only [erasedBinding, Binding.label, key_key, map_label_erasedInits]

theorem labels_erasedBindings :
    ∀ bs : List (Binding Expr), Binding.labels (erasedBindings bs) = Binding.labels bs
  | [] => rfl
  | b :: bs => by
      simp only [erasedBindings, Binding.labels, label_erasedBinding b, labels_erasedBindings bs]

end

mutual

theorem children_erasedBinding :
    ∀ b : Binding Expr, (erasedBinding b).children = b.children.map erased
  | .assign m v => by simp [erasedBinding, Binding.children]
  | .nested m bs => by simp only [erasedBinding, Binding.children, childrenOf_erasedBindings bs]
  | .elements m is => by simp only [erasedBinding, Binding.children, args_erasedInits]

theorem childrenOf_erasedBindings : ∀ bs : List (Binding Expr),
    Binding.childrenOf (erasedBindings bs) = (Binding.childrenOf bs).map erased
  | [] => by simp [erasedBindings, Binding.childrenOf]
  | b :: bs => by
      simp only [erasedBindings, Binding.childrenOf, children_erasedBinding b,
        childrenOf_erasedBindings bs, List.map_append]

end

theorem label_erasedNode (n : Node Expr) : (erasedNode n).label = n.label := by
  have receiver (o : Option Expr) : (o.map erased).map blank = o.map blank := by
    cases o <;> rfl
  have members (ms : List Member) : (ms.map Member.key).map Member.key = ms.map Member.key := by
    rw [List.map_map]
    rfl
  cases n <;>
    simp only [erasedNode, Node.label, Construction.label, erasedOption_eq, erasedList_eq,
      map_blank_erased, receiver, members, map_label_erasedInits, labels_erasedBindings, key_key]

theorem children_erasedNode (n : Node Expr) : (erasedNode n).children = n.children.map erased := by
  cases n with
  | binary op m l r c => cases c <;> simp [erasedNode, Node.children, erasedOption_eq]
  | call m o as => cases o <;> simp [erasedNode, Node.children, erasedOption_eq, erasedList_eq]
  | member m o => cases o <;> simp [erasedNode, Node.children, erasedOption_eq]
  | memberInit c bs =>
      simp [erasedNode, Node.children, erasedList_eq, childrenOf_erasedBindings]
  | listInit c is => simp [erasedNode, Node.children, erasedList_eq, args_erasedInits]
  | _ => simp [erasedNode, Node.children, erasedList_eq]

/-! ## Labels and children determine an erased node -/

section Determined

variable {es es' : List Expr}

theorem erasedOption_congr {o o' : Option Expr} (h : o.toList.map erased = o'.toList.map erased) :
    erasedOption o = erasedOption o' := by
  cases o <;> cases o' <;> simp_all [erasedOption]

/-- Two parts of a node, the first of which has equally many children on both sides. -/
theorem map_erased_append {fs fs' : List Expr} (hlen : es.length = es'.length)
    (h : (es ++ fs).map erased = (es' ++ fs').map erased) :
    es.map erased = es'.map erased ∧ fs.map erased = fs'.map erased := by
  rw [List.map_append, List.map_append] at h
  exact List.append_inj h (by simpa using hlen)

theorem erasedInits_congr {is is' : List (ElementInit Expr)}
    (label : is.map ElementInit.label = is'.map ElementInit.label)
    (children : (is.flatMap ElementInit.args).map erased =
      (is'.flatMap ElementInit.args).map erased) : erasedInits is = erasedInits is' := by
  induction is generalizing is' with
  | nil =>
      have hnil : is' = [] := by simpa using label.symm
      rw [hnil]
  | cons i rest ih =>
      cases is' with
      | nil => cases label
      | cons i' rest' =>
          rw [List.map_cons, List.map_cons, List.cons.injEq] at label
          rw [List.flatMap_cons, List.flatMap_cons] at children
          have hlen : i.args.length = i'.args.length :=
            map_blank_eq_iff.1 (congrArg ElementInit.args label.1)
          obtain ⟨hargs, hrest⟩ := map_erased_append hlen children
          have hmethod : i.label.addMethod = i'.label.addMethod :=
            congrArg ElementInit.addMethod label.1
          have hfirst : erasedInit i = erasedInit i' := by
            rcases i with ⟨m, as⟩
            rcases i' with ⟨m', as'⟩
            simp only [ElementInit.label] at hmethod
            rw [erasedInit, erasedInit, erasedList_eq, erasedList_eq, hmethod, hargs]
          rw [erasedInits, erasedInits, hfirst, ih label.2 hrest]

mutual

theorem erasedBinding_congr : ∀ b b' : Binding Expr, b.label = b'.label →
    b.children.map erased = b'.children.map erased → erasedBinding b = erasedBinding b'
  | .assign m v, b', label, children => by
      cases b' with
      | assign m' v' => simp_all [Binding.label, Binding.children, erasedBinding]
      | _ => cases label
  | .nested m bs, b', label, children => by
      cases b' with
      | nested m' bs' =>
          simp only [Binding.label, Binding.nested.injEq] at label
          simp only [Binding.children] at children
          rw [erasedBinding, erasedBinding, label.1,
            erasedBindings_congr bs bs' label.2 children]
      | _ => cases label
  | .elements m is, b', label, children => by
      cases b' with
      | elements m' is' =>
          simp only [Binding.label, Binding.elements.injEq] at label
          simp only [Binding.children] at children
          rw [erasedBinding, erasedBinding, label.1, erasedInits_congr label.2 children]
      | _ => cases label

theorem erasedBindings_congr : ∀ bs bs' : List (Binding Expr),
    Binding.labels bs = Binding.labels bs' →
      (Binding.childrenOf bs).map erased = (Binding.childrenOf bs').map erased →
        erasedBindings bs = erasedBindings bs'
  | [], [], _, _ => rfl
  | [], b' :: rest', label, _ => by simp [Binding.labels] at label
  | b :: rest, [], label, _ => by simp [Binding.labels] at label
  | b :: rest, b' :: rest', label, children => by
      simp only [Binding.labels, List.cons.injEq] at label
      simp only [Binding.childrenOf] at children
      have hlen : b.children.length = b'.children.length :=
        Binding.length_children_of_label label.1
      obtain ⟨hfirst, hrest⟩ := map_erased_append hlen children
      rw [erasedBindings, erasedBindings, erasedBinding_congr b b' label.1 hfirst,
        erasedBindings_congr rest rest' label.2 hrest]

end

theorem erasedNode_congr {n n' : Node Expr} (label : n.label = n'.label)
    (children : n.children.map erased = n'.children.map erased) :
    erasedNode n = erasedNode n' := by
  -- Nodes of different kinds have different labels.
  cases n with
  | binary op m l r c =>
      cases n' with
      | binary op' m' l' r' c' =>
          simp only [Node.label, Node.binary.injEq] at label
          simp only [Node.children, List.map_cons, List.cons.injEq] at children
          rw [erasedNode, erasedNode, label.1, label.2.1, children.1, children.2.1,
            erasedOption_congr children.2.2]
      | _ => cases label
  | unary op m e =>
      cases n' with
      | unary op' m' e' => simp_all [Node.label, Node.children, erasedNode]
      | _ => cases label
  | call m o as =>
      cases n' with
      | call m' o' as' =>
          simp only [Node.label, Node.call.injEq] at label
          -- A receiver stands before the arguments on both sides or on none.
          have hlen : o.toList.length = o'.toList.length := by
            cases o <;> cases o' <;> simp_all
          obtain ⟨hobject, hargs⟩ := map_erased_append hlen children
          rw [erasedNode, erasedNode, label.1, erasedOption_congr hobject, erasedList_eq,
            erasedList_eq, hargs]
      | _ => cases label
  | invoke t as =>
      cases n' with
      | invoke t' as' => simp_all [Node.label, Node.children, erasedNode, erasedList_eq]
      | _ => cases label
  | conditional t a b =>
      cases n' with
      | conditional t' a' b' => simp_all [Node.label, Node.children, erasedNode]
      | _ => cases label
  | constant v =>
      cases n' with
      | constant v' => rfl
      | _ => cases label
  | member m o =>
      cases n' with
      | member m' o' =>
          simp only [Node.label, Node.member.injEq] at label
          rw [erasedNode, erasedNode, label.1, erasedOption_congr children]
      | _ => cases label
  | construct c =>
      cases n' with
      | construct c' =>
          rcases c with ⟨ctor, as, ms⟩
          rcases c' with ⟨ctor', as', ms'⟩
          simp only [Node.label, Construction.label, Node.construct.injEq,
            Construction.mk.injEq] at label
          simp only [Node.children] at children
          simp only [erasedNode, erasedList_eq, label.1, label.2.2, children]
      | _ => cases label
  | memberInit c bs =>
      cases n' with
      | memberInit c' bs' =>
          rcases c with ⟨ctor, as, ms⟩
          rcases c' with ⟨ctor', as', ms'⟩
          simp only [Node.label, Construction.label, Node.memberInit.injEq,
            Construction.mk.injEq] at label
          obtain ⟨⟨hctor, hblank, hmembers⟩, hlabels⟩ := label
          -- Arguments come before what is bound; equal labels mean equally many of them.
          obtain ⟨hargs, hbound⟩ := map_erased_append (map_blank_eq_iff.1 hblank) children
          simp only [erasedNode, erasedList_eq, hctor, hmembers, hargs,
            erasedBindings_congr bs bs' hlabels hbound]
      | _ => cases label
  | listInit c is =>
      cases n' with
      | listInit c' is' =>
          rcases c with ⟨ctor, as, ms⟩
          rcases c' with ⟨ctor', as', ms'⟩
          simp only [Node.label, Construction.label, Node.listInit.injEq,
            Construction.mk.injEq] at label
          obtain ⟨⟨hctor, hblank, hmembers⟩, hlabels⟩ := label
          obtain ⟨hargs, hadded⟩ := map_erased_append (map_blank_eq_iff.1 hblank) children
          simp only [erasedNode, erasedList_eq, hctor, hmembers, hargs,
            erasedInits_congr hlabels hadded]
      | _ => cases label
  | newArray k as =>
      cases n' with
      | newArray k' as' => simp_all [Node.label, Node.children, erasedNode, erasedList_eq]
      | _ => cases label
  | lambda ps b =>
      cases n' with
      | lambda ps' b' => simp_all [Node.label, Node.children, erasedNode]
      | _ => cases label
  | parameter name =>
      cases n' with
      | parameter name' => simp_all [Node.label, erasedNode]
      | _ => cases label
  | typeIs e t =>
      cases n' with
      | typeIs e' t' => simp_all [Node.label, Node.children, erasedNode]
      | _ => cases label

end Determined

/-- Templates have equal erasures when their types, labels and erased children are equal. -/
theorem erased_eq_iff {a b : Expr} :
    a.erased = b.erased ↔
      a.ty = b.ty ∧ a.node.label = b.node.label ∧
        a.children.map erased = b.children.map erased := by
  rcases a with ⟨i, ty, n⟩
  rcases b with ⟨j, ty', n'⟩
  simp only [erased, mk.injEq, true_and, children]
  constructor
  · rintro ⟨hty, hnode⟩
    have hlabel : n.label = n'.label := by
      rw [← label_erasedNode n, hnode, label_erasedNode n']
    have hchildren : n.children.map erased = n'.children.map erased := by
      rw [← children_erasedNode n, hnode, children_erasedNode n']
    exact ⟨hty, hlabel, hchildren⟩
  · rintro ⟨hty, hlabel, hchildren⟩
    exact ⟨hty, erasedNode_congr hlabel hchildren⟩

/-! ## Literals of inlined types -/

/-- Literals of an inlined type are equal as values where they stand at one position. -/
def InlinedAgree (a b : Expr) : Prop :=
  ∀ path x y, a.resolve? path = some x → b.resolve? path = some y →
    LiteralsAgree x.ty x.node y.node

theorem inlinedAgree_iff {a b : Expr} :
    InlinedAgree a b ↔
      LiteralsAgree a.ty a.node b.node ∧
        ∀ (index : Nat) (c d : Expr), a.children[index]? = some c →
          b.children[index]? = some d → InlinedAgree c d := by
  constructor
  · intro h
    refine ⟨h [] a b a.resolve?_nil b.resolve?_nil, ?_⟩
    intro index c d hc hd path x y hx hy
    refine h (index :: path) x y ?_ ?_
    · rw [resolve?_cons, hc]
      exact hx
    · rw [resolve?_cons, hd]
      exact hy
  · rintro ⟨here, below⟩ path x y hx hy
    cases path with
    | nil =>
        cases (resolve?_nil a).symm.trans hx
        cases (resolve?_nil b).symm.trans hy
        exact here
    | cons index rest =>
        rw [resolve?_cons] at hx hy
        rcases Option.bind_eq_some_iff.1 hx with ⟨c, hc, hx⟩
        rcases Option.bind_eq_some_iff.1 hy with ⟨d, hd, hy⟩
        exact below index c d hc hd rest x y hx hy

/-- A literal of an inlined type is no float that is not a number. -/
def InlinedNumber (e : Expr) : Prop :=
  ∀ x, e.node = .constant (.float x) → e.ty.isInlined = true → x.isNaN = false

theorem float_beq_self {x : Float} (h : x.isNaN = false) : (x == x) = true := by
  have hnumber : x.toModel.unpack ≠ .notANumber := by
    intro hnan
    have hmodel : x.toModel.unpack.isNaN = false := h
    rw [hnan] at hmodel
    cases hmodel
  rw [float_beq_iff, compare_eq_iff]
  exact .inl ⟨rfl, hnumber⟩

/-- Only a float that is no number does not agree with itself. -/
theorem agrees_self {e : Expr} {v : Value} (number : InlinedNumber e) (literal : e.node = .constant v)
    (inlined : e.ty.isInlined = true) : v.agrees v = true := by
  cases v with
  | float x => exact float_beq_self (number x literal inlined)
  | _ => simp [Value.agrees]

theorem inlinedAgree_self {a : Expr} (numbers : a.Everywhere InlinedNumber) : InlinedAgree a a := by
  intro path x y hx hy v w hv hw
  cases hx.symm.trans hy
  cases hv.symm.trans hw
  by_cases inlined : x.ty.isInlined = true
  · exact .inr (agrees_self (numbers path x hx) hv inlined)
  · exact .inl (Bool.eq_false_iff.2 inlined)

/-! ## Equal trees -/

/-- Templates are the same tree, whatever objects they are made of. -/
structure SameTree (a b : Expr) : Prop where
  erased : a.erased = b.erased
  literals : InlinedAgree a b

theorem map_eq_iff_forall₂ {α β : Type} {f : α → β} {as bs : List α} :
    as.map f = bs.map f ↔ List.Forall₂ (fun a b => f a = f b) as bs := by
  rw [← List.forall₂_eq_eq_eq, List.forall₂_map_left_iff, List.forall₂_map_right_iff]

/-- The comparison of trees, one layer at a time. -/
theorem sameTree_iff {a b : Expr} :
    SameTree a b ↔
      a.ty = b.ty ∧ a.node.label = b.node.label ∧ LiteralsAgree a.ty a.node b.node ∧
        List.Forall₂ SameTree a.children b.children := by
  constructor
  · rintro ⟨herased, hliterals⟩
    obtain ⟨hty, hlabel, hchildren⟩ := erased_eq_iff.1 herased
    obtain ⟨here, below⟩ := inlinedAgree_iff.1 hliterals
    refine ⟨hty, hlabel, here, List.forall₂_iff_get.2 ?_⟩
    have hall := List.forall₂_iff_get.1 (map_eq_iff_forall₂.1 hchildren)
    refine ⟨hall.1, ?_⟩
    intro index hi hj
    refine ⟨hall.2 index hi hj, below index _ _ ?_ ?_⟩
    · exact List.getElem?_eq_getElem hi
    · exact List.getElem?_eq_getElem hj
  · rintro ⟨hty, hlabel, here, hchildren⟩
    refine ⟨erased_eq_iff.2 ⟨hty, hlabel, ?_⟩, inlinedAgree_iff.2 ⟨here, ?_⟩⟩
    · exact map_eq_iff_forall₂.2 (hchildren.imp fun _ _ h => h.erased)
    · intro index c d hc hd
      have hrel := rel_getElem?_of_forall₂ hchildren index
      rw [hc, hd] at hrel
      cases hrel with
      | some h => exact h.literals

theorem alike_of_sameTree {a b : Expr} (h : SameTree a b) : a.alike b = true := by
  induction a using inductionOnChildren generalizing b with
  | step a ih =>
      obtain ⟨hty, hlabel, hliterals, hchildren⟩ := sameTree_iff.1 h
      have halike : List.Forall₂ Alike a.children b.children :=
        forall₂_imp_of_mem (fun c hc d hcd => ih c hc hcd) hchildren
      exact alike_iff.2 (.inr ⟨hty, hlabel, hliterals, halike⟩)

theorem sameTree_of_alike {a b : Expr} (numbers : a.Everywhere InlinedNumber)
    (h : a.alike b = true) : SameTree a b := by
  induction a using inductionOnChildren generalizing b with
  | step a ih =>
      rcases alike_iff.1 h with rfl | ⟨hty, hlabel, hliterals, hchildren⟩
      -- One object was not walked; its tree equals itself because its literals do.
      · exact ⟨rfl, inlinedAgree_self numbers⟩
      · have below := (everywhere_iff.1 numbers).2
        have hsame : List.Forall₂ SameTree a.children b.children :=
          forall₂_imp_of_mem (fun c hc d hcd => ih c hc (below c hc) hcd) hchildren
        exact sameTree_iff.2 ⟨hty, hlabel, hliterals, hsame⟩

/-- Matching agrees with the comparison of trees, wherever the two templates share objects: unless a
literal of an inlined type is no number, templates are alike exactly when they are the same tree.  A
template may therefore be rebuilt, and its other literals be replaced, without a difference to what it
is alike to. -/
theorem alike_iff_sameTree {a : Expr} (numbers : a.Everywhere InlinedNumber) (b : Expr) :
    (a.alike b = true ↔ SameTree a b) ∧
      (SameTree a b → ∀ c, a.alike c = b.alike c ∧ c.alike a = c.alike b) := by
  refine ⟨⟨sameTree_of_alike numbers, alike_of_sameTree⟩, ?_⟩
  intro same c
  have hab : a.alike b = true := alike_of_sameTree same
  have hba : b.alike a = true := alike_symm hab
  constructor
  · exact Bool.eq_iff_iff.2 ⟨alike_trans hba, alike_trans hab⟩
  · exact Bool.eq_iff_iff.2 ⟨fun h => alike_trans h hab, fun h => alike_trans h hba⟩

namespace Sample

/-- One of two rates, depending on a price that is compared with itself. -/
def rates (first second : Nat) (rate : Float) (price : Int64) : Expr :=
  let paid : Expr := ⟨10, .int64, .constant (.long price)⟩
  let test : Expr := ⟨11, .bool, .binary .lessThan none paid paid none⟩
  let left : Expr := ⟨first, .int32, .constant (.float rate)⟩
  let right : Expr := ⟨second, .int32, .constant (.float rate)⟩
  ⟨12, .int32, .conditional test left right⟩

end Sample

/-- Both rates are one literal in the first template and two in the second one, which carries the
other zero and another price. -/
theorem rates_same_tree :
    let a := Sample.rates 0 0 0 30
    let b := Sample.rates 1 2 (-0) 40
    a.Everywhere InlinedNumber ∧ a ≠ b ∧ SameTree a b ∧ ∀ c, a.alike c = b.alike c := by
  intro a b
  have zero : Float.isNaN 0 = false := by decide +kernel
  have numbers : a.Everywhere InlinedNumber := by
    have rate (id : Nat) : InlinedNumber ⟨id, .int32, .constant (.float 0)⟩ := by
      rintro x ⟨⟩ _
      exact zero
    have other {id : Nat} {ty : Ty} {n : Node Expr} (h : ∀ x, n ≠ .constant (.float x)) :
        InlinedNumber ⟨id, ty, n⟩ := by
      intro x hx
      exact absurd hx (h x)
    simp [a, Sample.rates, everywhere_node, Node.children, rate, other]
  have halike : a.alike b = true := by decide +kernel
  have differ : a ≠ b := by decide +kernel
  have same : SameTree a b := (alike_iff_sameTree numbers b).1.1 halike
  refine ⟨numbers, differ, same, ?_⟩
  intro c
  exact ((alike_iff_sameTree numbers b).2 same c).1

end Expr
end QueryPlan
