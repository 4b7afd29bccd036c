import QueryPlan.Proofs.Compile.Places

/-!
# Comparisons — what `=` and `<>` are applied to

A null is neither equal nor unequal to anything in SQL, so a comparison with one drops every row.
The compiler keeps nulls out of comparisons in two ways.  An inlined null beside `=` or `<>` makes a null
test; this is decided on the template.  A bound parameter, which may hold a null later, makes a
comparison that treats two nulls as equal; this is decided on the terms the operands become.

The second decision sees parameters that a projection brings in, so no `=` or `<>` is ever applied to a
parameter.  The first does not see an inlined null that a wrapper hides or that a projection
brings in.  Templates without such nulls (`NullsInPlace`) never compare with one.
-/

namespace QueryPlan
namespace Sql
namespace Term

def isNullLiteral : Term → Bool
  | literal value => value.isNull
  | _ => false

/-- Every operand of `=` and `<>` in a term has a property. -/
def ComparesOnly (Q : Term → Prop) (τ : Term) : Prop :=
  ∀ op l r, .binary op l r ∈ τ.subterms → op = .equal ∨ op = .notEqual → Q l ∧ Q r

namespace ComparesOnly

variable {Q : Term → Prop} {τ l r c : Term}

theorem column (s : Nat) (name : String) : (Term.column s name).ComparesOnly Q := by
  simp [ComparesOnly, subterms]

theorem literal (value : Value) : (Term.literal value).ComparesOnly Q := by
  simp [ComparesOnly, subterms]

theorem param (index : Nat) : (Term.param index).ComparesOnly Q := by
  simp [ComparesOnly, subterms]

theorem binary {op : BinaryOp} (hl : l.ComparesOnly Q) (hr : r.ComparesOnly Q)
    (operands : op = .equal ∨ op = .notEqual → Q l ∧ Q r) :
    (Term.binary op l r).ComparesOnly Q := by
  intro op' l' r' hmem hop
  rcases List.mem_cons.1 hmem with heq | hmem
  · cases heq
    exact operands hop
  · rcases List.mem_append.1 hmem with hmem | hmem
    · exact hl op' l' r' hmem hop
    · exact hr op' l' r' hmem hop

theorem not (h : τ.ComparesOnly Q) : (Term.not τ).ComparesOnly Q := by
  simpa [ComparesOnly, subterms] using h

theorem negate (h : τ.ComparesOnly Q) : (Term.negate τ).ComparesOnly Q := by
  simpa [ComparesOnly, subterms] using h

theorem isNull (negated : Bool) (h : τ.ComparesOnly Q) : (Term.isNull τ negated).ComparesOnly Q := by
  simpa [ComparesOnly, subterms] using h

theorem caseWhen (hc : c.ComparesOnly Q) (hl : l.ComparesOnly Q) (hr : r.ComparesOnly Q) :
    (Term.caseWhen c l r).ComparesOnly Q := by
  intro op l' r' hmem hop
  rcases List.mem_cons.1 hmem with heq | hmem
  · cases heq
  · rw [List.mem_append, List.mem_append] at hmem
    rcases hmem with (hmem | hmem) | hmem
    · exact hc op l' r' hmem hop
    · exact hl op l' r' hmem hop
    · exact hr op l' r' hmem hop

theorem ofPredicate (h : τ.ComparesOnly Q) : (Term.ofPredicate τ).ComparesOnly Q :=
  h.caseWhen (literal _) (literal _)

end ComparesOnly
end Term
end Sql

namespace Expr

/-- Strip the wrappers that leave no trace in a query. -/
def bare (e : Expr) : Expr :=
  match e with
  | ⟨id, ty, .unary op method operand⟩ =>
      if op ∈ [.convert, .quote, .typeAs, .unaryPlus] then
        bare operand
      else
        ⟨id, ty, .unary op method operand⟩
  | e => e
termination_by structural e

end Expr

namespace Compile

open Sql (Context OrderItem Query Scope Shape Slot Term)

/-! ## A comparison -/

/-- The operator of a comparison that is no null test. -/
def comparison (negated nullSafe : Bool) : Sql.BinaryOp :=
  match negated, nullSafe with
  | false, false => .equal
  | true, false => .notEqual
  | false, true => .notDistinctFrom
  | true, true => .distinctFrom

section Equality

variable {frame : Frame} {path : Path} {slots slots' : List Slot} {id : Nat} {ty : Ty}
  {op : BinaryOp} {method : Option Method} {left right : Expr} {conversion : Option Expr}
  {negated : Bool} {τ : Term}

theorem combine_of_nullTest? (test : nullTest? op = some negated) {sqlOp : Sql.BinaryOp}
    (operator : sqlOp? op (ty == .bool) = some sqlOp) (l r : Term) :
    combine sqlOp l r = .binary (comparison negated (l.isParam || r.isParam)) l r := by
  cases op <;> simp only [nullTest?, reduceCtorEq, Option.some.injEq] at test
  all_goals
    cases operator
    subst test
    unfold combine
    cases l.isParam || r.isParam <;> rfl

/-- A converted equality or inequality is a null test of the operand beside an inlined null, or else
a comparison of both operands. -/
theorem run_equality (test : nullTest? op = some negated)
    (h : (convert frame path ⟨id, ty, .binary op method left right conversion⟩).run slots =
      .ok (τ, slots')) :
    (∃ σ, τ = .isNull σ negated ∧
      ((isInlineNull right = true ∧
          (convert frame (path ++ [0]) left).run slots = .ok (σ, slots')) ∨
        (isInlineNull left = true ∧
          (convert frame (path ++ [1]) right).run slots = .ok (σ, slots')))) ∨
    ∃ l between r, isInlineNull left = false ∧ isInlineNull right = false ∧
      (convert frame (path ++ [0]) left).run slots = .ok (l, between) ∧
      (convert frame (path ++ [1]) right).run between = .ok (r, slots') ∧
      τ = .binary (comparison negated (l.isParam || r.isParam)) l r := by
  rw [convert, test] at h
  cases hright : isInlineNull right with
  | true =>
      rw [hright] at h
      rcases run_bind_pure_ok.1 h with ⟨σ, hσ, rfl⟩
      exact .inl ⟨σ, rfl, .inl ⟨rfl, hσ⟩⟩
  | false =>
      cases hleft : isInlineNull left with
      | true =>
          rw [hright, hleft] at h
          rcases run_bind_pure_ok.1 h with ⟨σ, hσ, rfl⟩
          exact .inl ⟨σ, rfl, .inr ⟨rfl, hσ⟩⟩
      | false =>
          rw [hright, hleft] at h
          simp only at h
          split at h
          · next sqlOp operator =>
              rcases run_bind_ok.1 h with ⟨l, between, hl, h⟩
              rcases run_bind_pure_ok.1 h with ⟨r, hr, rfl⟩
              have compared := combine_of_nullTest? test operator l r
              exact .inr ⟨l, between, r, rfl, rfl, hl, hr, compared⟩
          · cases h

end Equality

/-! ## Operands -/

section Operands

variable {Q : Term → Prop} {slots : List Slot} {frame : Frame}

theorem comparesOnly_combine (op : Sql.BinaryOp) {l r : Term} (hl : l.ComparesOnly Q)
    (hr : r.ComparesOnly Q)
    (operands : op = .equal ∨ op = .notEqual → l.isParam = false → r.isParam = false → Q l ∧ Q r) :
    (combine op l r).ComparesOnly Q := by
  unfold combine
  split
  -- Beside a parameter, what is left of the operator is neither `=` nor `<>`.
  · split
    · exact hl.binary hr (by simp)
    · exact hl.binary hr (by simp)
    · next notEqual notNotEqual =>
        refine hl.binary hr ?_
        rintro (rfl | rfl)
        · exact absurd rfl notEqual
        · exact absurd rfl notNotEqual
  · next unbound =>
      have unbound : l.isParam = false ∧ r.isParam = false := by simpa using unbound
      refine hl.binary hr ?_
      intro hop
      exact operands hop unbound.1 unbound.2

theorem comparesOnly_asValue (ty : Ty) {τ : Term} (h : τ.ComparesOnly Q) :
    (asValue ty τ).ComparesOnly Q := by
  unfold asValue
  split
  · exact h.ofPredicate
  · exact h

/-- The operands of a node that is converted to `=` or `<>` become terms with a property. -/
def OperandsBecome (Q : Term → Prop) (slots : List Slot) (frame : Frame) (e : Expr) : Prop :=
  ∀ op method left right conversion, e.node = .binary op method left right conversion →
    (nullTest? op).isSome → isInlineNull left = false → isInlineNull right = false →
      ∀ leftPath rightPath l r, Converts slots frame leftPath left l →
        Converts slots frame rightPath right r → l.isParam = false → r.isParam = false → Q l ∧ Q r

theorem nullTest?_of_sqlOp? {op : BinaryOp} {logical : Bool} {sqlOp : Sql.BinaryOp}
    (operator : sqlOp? op logical = some sqlOp) (hop : sqlOp = .equal ∨ sqlOp = .notEqual) :
    (nullTest? op).isSome := by
  rcases hop with rfl | rfl
  all_goals cases op <;> cases logical <;> first | rfl | cases operator

/-- If the operands of the nodes of an expression become terms with a property, and the terms of the
element compare only such terms, then so does the term that the expression becomes. -/
theorem comparesOnly_of_converts {path : Path} {e : Expr} {τ : Term}
    (h : Converts slots frame path e τ) (element : ∀ σ ∈ frame.shape.terms, σ.ComparesOnly Q)
    (operands : e.Everywhere (OperandsBecome Q slots frame)) : τ.ComparesOnly Q := by
  induction h with
  | element bound shape => exact element _ (mem_terms_of_scalar shape)
  | field bound found => exact element _ (mem_terms_of_member? found)
  | captured slot => exact .param _
  | inlined inlined => exact .literal _
  | literal notInlined scalar slot => exact .param _
  | nullRight test null operandTerm ih =>
      have hleft := ih (operands.of_mem_children (by simp [Expr.children, Node.children]))
      exact hleft.isNull _
  | nullLeft test notNull null operandTerm ih =>
      have hright := ih (operands.of_mem_children (by simp [Expr.children, Node.children]))
      exact hright.isNull _
  | @binary path id ty op method left right conversion sqlOp l r noTest operator leftTerm rightTerm
      ihl ihr =>
      have hl := ihl (operands.of_mem_children (by simp [Expr.children, Node.children]))
      have hr := ihr (operands.of_mem_children (by simp [Expr.children, Node.children]))
      refine comparesOnly_combine sqlOp hl hr ?_
      intro hop leftUnbound rightUnbound
      have test : (nullTest? op).isSome := nullTest?_of_sqlOp? operator hop
      have noNull : isInlineNull left = false ∧ isInlineNull right = false := by
        rcases noTest with noTest | noNull
        · simp [noTest] at test
        · exact noNull
      exact operands.here op method left right conversion rfl test noNull.1 noNull.2 _ _ l r leftTerm
        rightTerm leftUnbound rightUnbound
  | not operandTerm ih =>
      have hoperand := ih (operands.of_mem_children (by simp [Expr.children, Node.children]))
      exact hoperand.not
  | negate operandTerm ih =>
      have hoperand := ih (operands.of_mem_children (by simp [Expr.children, Node.children]))
      exact hoperand.negate
  | transparent wrapper operandTerm ih =>
      exact ih (operands.of_mem_children (by simp [Expr.children, Node.children]))
  | conditional testTerm trueTerm falseTerm iht iha ihb =>
      have ht := iht (operands.of_mem_children (by simp [Expr.children, Node.children]))
      have ha := iha (operands.of_mem_children (by simp [Expr.children, Node.children]))
      have hb := ihb (operands.of_mem_children (by simp [Expr.children, Node.children]))
      exact ht.caseWhen ha hb

end Operands

/-! ## Compiled queries -/

section Queries

variable {Q R : Term → Prop} {rules : List Rule} {schema : Schema} {t : Expr} {query : Query}

/-- Terms that compare only terms with one property; those of columns have another one as well. -/
def comparing (Q R : Term → Prop) : Places where
  filter := Term.ComparesOnly Q
  key := Term.ComparesOnly Q
  column := fun τ => τ.ComparesOnly Q ∧ R τ
  bound := Term.ComparesOnly Q

theorem Places.HoldIn.comparesOnly {scope : Scope} (h : (comparing Q R).HoldIn scope) :
    ∀ τ ∈ scope.terms ++ scope.bounds, τ.ComparesOnly Q := by
  have terms : ∀ τ ∈ scope.terms, τ.ComparesOnly Q := by
    have columns : ∀ column ∈ scope.columns, column.term.ComparesOnly Q := by
      intro column hcolumn
      exact (h.columns column hcolumn).1
    exact forall_terms.2 ⟨h.filter, h.keys, columns⟩
  have bounds : ∀ τ ∈ scope.bounds, τ.ComparesOnly Q := by
    have take : ∀ τ ∈ scope.take.toList, τ.ComparesOnly Q := by simpa [comparing] using h.take
    have skip : ∀ τ ∈ scope.skip.toList, τ.ComparesOnly Q := by simpa [comparing] using h.skip
    exact List.forall_mem_append.2 ⟨take, skip⟩
  exact List.forall_mem_append.2 ⟨terms, bounds⟩

theorem comparing_closed (columns : ∀ s name, R (.column s name)) : (comparing Q R).Closed := by
  constructor
  case column =>
    intro s name
    exact ⟨.column s name, columns s name⟩
  case conjunction =>
    intro l r hl hr
    exact hl.binary hr (by simp)

theorem comparing_keptBy {slots : List Slot} {link : Link} (hlink : link ∈ links t)
    (operands : ∀ frame : Frame, (∀ σ ∈ frame.shape.terms, R σ) →
      t.Everywhere (OperandsBecome Q slots frame))
    (values : link.operator = .select → ∀ value ∈ link.values, ∀ frame path τ,
      (∀ σ ∈ frame.shape.terms, R σ) → Converts slots frame path value τ →
        R (asValue value.ty τ)) : (comparing Q R).KeptBy slots link := by
  -- Whatever holds everywhere in the template holds everywhere in what the link converts.
  have converted : ∀ (e : Expr) (frame : Frame) (path : Path) (τ : Term),
      (∀ P, t.Everywhere P → e.Everywhere P) →
      (∀ σ ∈ frame.shape.terms, (comparing Q R).column σ) → Converts slots frame path e τ →
        τ.ComparesOnly Q := by
    intro e frame path τ within element hτ
    have here := within _ (operands frame fun σ hσ => (element σ hσ).2)
    exact comparesOnly_of_converts hτ (fun σ hσ => (element σ hσ).1) here
  have ofValue : ∀ value ∈ link.values, ∀ P, t.Everywhere P → value.Everywhere P := by
    intro value hvalue P hP
    exact everywhere_of_mem_values hP hlink hvalue
  constructor
  case filter =>
    intro _ param body selector frame path τ element hτ
    refine converted body frame path τ ?_ element hτ
    intro P hP
    exact everywhere_of_selector (everywhere_of_mem_links hP hlink) selector
  case key =>
    intro _ value hvalue frame path τ element hτ
    have raw := converted value frame path τ (ofValue value hvalue) element hτ
    exact comparesOnly_asValue value.ty raw
  case column =>
    intro select value hvalue frame path τ element hτ
    have raw := converted value frame path τ (ofValue value hvalue) element hτ
    have kept := values select value hvalue frame path τ (fun σ hσ => (element σ hσ).2) hτ
    exact ⟨comparesOnly_asValue value.ty raw, kept⟩
  case bound =>
    intro _ frame path τ element hτ
    refine converted link.argument frame path τ ?_ element hτ
    intro P hP
    exact everywhere_of_mem_links hP hlink

/-- If the operands of the nodes of a template become terms with one property as long as the terms of the
element have another one, which projected values then have too, its query compares only terms
with the first property. -/
theorem comparesOnly_of_query (h : (⟨rules, schema, t⟩ : Compiler).query = .ok query)
    (columns : ∀ s name, R (.column s name))
    (operands : ∀ frame : Frame, (∀ σ ∈ frame.shape.terms, R σ) →
      t.Everywhere (OperandsBecome Q query.slots frame))
    (values : ∀ link ∈ links t, link.operator = .select → ∀ value ∈ link.values,
      ∀ frame path τ, (∀ σ ∈ frame.shape.terms, R σ) → Converts query.slots frame path value τ →
        R (asValue value.ty τ)) :
    ∀ scope ∈ query.scopes, ∀ τ ∈ scope.terms ++ scope.bounds, τ.ComparesOnly Q := by
  intro scope hscope
  have hold : (comparing Q R).HoldIn scope := by
    refine Places.holdIn_of_query (comparing_closed columns) h ?_ scope hscope
    intro link hlink
    exact comparing_keptBy hlink operands (values link hlink)
  exact hold.comparesOnly

end Queries

/-! ## Parameters -/

/-- No `=` or `<>` in a compiled query is applied to a bound parameter.  An equality or inequality
either tests for null, or is null-safe exactly if one of its operands becomes a parameter. -/
theorem parameters_compared_null_safely (rules : List Rule) (schema : Schema) (t : Expr)
    {query : Query} (h : (⟨rules, schema, t⟩ : Compiler).query = .ok query) :
    (∀ scope ∈ query.scopes, ∀ τ ∈ scope.terms ++ scope.bounds,
      τ.ComparesOnly fun σ => σ.isParam = false) ∧
    ∀ frame path slots slots' id ty op method left right conversion negated τ,
      nullTest? op = some negated →
      (convert frame path ⟨id, ty, .binary op method left right conversion⟩).run slots =
        .ok (τ, slots') →
      (∃ σ, τ = .isNull σ negated) ∨
        ∃ l between r, (convert frame (path ++ [0]) left).run slots = .ok (l, between) ∧
          (convert frame (path ++ [1]) right).run between = .ok (r, slots') ∧
          τ = .binary (comparison negated (l.isParam || r.isParam)) l r := by
  constructor
  · have operands : ∀ frame : Frame, (∀ σ ∈ frame.shape.terms, True) →
        t.Everywhere (OperandsBecome (fun σ => σ.isParam = false) query.slots frame) := by
      intro frame _ _ _ _ _ _ _ _ _ _ _ _ _ _ _ _ _ _ _ leftUnbound rightUnbound
      exact ⟨leftUnbound, rightUnbound⟩
    exact comparesOnly_of_query (R := fun _ => True) h (by simp) operands (by simp)
  · intro frame path slots slots' id ty op method left right conversion negated τ test hrun
    rcases run_equality test hrun with ⟨σ, hτ, -⟩ | ⟨l, between, r, -, -, hl, hr, hτ⟩
    · exact .inl ⟨σ, hτ⟩
    · exact .inr ⟨l, between, r, hl, hr, hτ⟩

namespace Sample

/-- People with a captured name beside their own one, as far as they pass a test. -/
def wishes (env : Env Value) (test : Expr) : Expr :=
  let people : Expr := ⟨31, .table element, .constant (.table ⟨person, element⟩)⟩
  let x : Expr := ⟨32, element, .parameter "x"⟩
  let captured : Expr := ⟨33, .environment, .constant (.closure env)⟩
  let nameOf : Expr := ⟨34, .text, .member ⟨element, "name", .text⟩ (some x)⟩
  let wanted : Expr := ⟨35, .text, .member ⟨.environment, "wanted", .text⟩ (some captured)⟩
  let wish : Ty := .named "Wish"
  let both : Expr := ⟨36, wish, .construct
    ⟨⟨wish, 2⟩, [nameOf, wanted], [⟨wish, "name", .text⟩, ⟨wish, "wanted", .text⟩]⟩⟩
  let paired : Expr := ⟨37, .unit, .lambda [⟨"x", element⟩] both⟩
  let selected : Expr :=
    ⟨38, .queryable wish, .call Operator.select.method none [people, paired]⟩
  let tested : Expr := ⟨39, .bool, .lambda [⟨"y", wish⟩] test⟩
  ⟨40, .queryable wish, .call Operator.filter.method none [selected, tested]⟩

/-- A member of what is tested. -/
def wished (name : String) : Expr :=
  ⟨42, .text, .member ⟨.named "Wish", name, .text⟩ (some ⟨41, .named "Wish", .parameter "y"⟩)⟩

/-- The own name is the captured one. -/
def nameWanted : Expr :=
  ⟨43, .bool, .binary .equal none (wished "name") (wished "wanted") none⟩

/-- There is a name. -/
def nameGiven : Expr :=
  ⟨43, .bool, .binary .notEqual none ⟨44, .text, .constant .null⟩ (wished "name") none⟩

/-- There is no name, said with a conversion around the null. -/
def nameConverted : Expr :=
  let null : Expr := ⟨44, .text, .constant .null⟩
  ⟨43, .bool, .binary .equal none (wished "name") ⟨45, .text, .unary .convert none null⟩ none⟩

/-- The compiler of the wishes that pass a test. -/
def wishing (test : Expr) : Compiler :=
  ⟨Rule.all, schema, wishes (.empty 0) test⟩

end Sample

/-- The captured name reaches the comparison through a projection. -/
theorem wishes_compared_null_safely :
    ∃ query, (Sample.wishing Sample.nameWanted).query = .ok query ∧
      query.root.filter = some (.binary .notDistinctFrom (.column 0 "name") (.param 0)) ∧
      ∀ scope ∈ query.scopes, ∀ τ ∈ scope.terms ++ scope.bounds,
        τ.ComparesOnly fun σ => σ.isParam = false := by
  obtain ⟨query, hquery, hfilter⟩ : ∃ query, (Sample.wishing Sample.nameWanted).query = .ok query ∧
      query.root.filter = some (.binary .notDistinctFrom (.column 0 "name") (.param 0)) :=
    Compiler.exists_query_of_view (by decide +kernel)
  have unbound := (parameters_compared_null_safely Rule.all Sample.schema _ hquery).1
  exact ⟨query, hquery, hfilter, unbound⟩

/-! ## Nulls -/

/-- Whether a node is an equality or inequality with an inlined null, but only under a wrapper. -/
def comparesHiddenNull (e : Expr) : Bool :=
  match e.node with
  | .binary op _ left right _ =>
      (nullTest? op).isSome && !isInlineNull left && !isInlineNull right &&
        (isInlineNull left.bare || isInlineNull right.bare)
  | _ => false

/-- Inlined nulls stand where the compiler sees them: none is compared with under a wrapper, and none
is projected. -/
structure NullsInPlace (t : Expr) : Prop where
  compared : t.Everywhere fun e => comparesHiddenNull e = false
  projected : ∀ link ∈ links t, link.operator = .select →
    ∀ value ∈ link.values, isInlineNull value.bare = false

section Nulls

variable {slots : List Slot} {frame : Frame} {path : Path} {e t : Expr} {τ : Term}

theorem isNullLiteral_combine (op : Sql.BinaryOp) (l r : Term) :
    (combine op l r).isNullLiteral = false := by
  unfold combine
  split
  · split <;> rfl
  · rfl

theorem isNullLiteral_asValue (ty : Ty) (h : τ.isNullLiteral = false) :
    (asValue ty τ).isNullLiteral = false := by
  unfold asValue
  split
  · rfl
  · exact h

/-- What is no inlined null under its wrappers does not become a null literal, unless the element has
one. -/
theorem isNullLiteral_of_converts (h : Converts slots frame path e τ)
    (element : ∀ σ ∈ frame.shape.terms, σ.isNullLiteral = false)
    (bare : isInlineNull e.bare = false) : τ.isNullLiteral = false := by
  induction h with
  | element bound shape => exact element _ (mem_terms_of_scalar shape)
  | field bound found => exact element _ (mem_terms_of_member? found)
  | @inlined path id ty value inlined =>
      have notNull : value.isNull = false := by
        simpa [Expr.bare, isInlineNull, Expr.asConstant?, inlined] using bare
      exact notNull
  | transparent wrapper operandTerm ih =>
      apply ih
      rwa [Expr.bare, if_pos wrapper] at bare
  | @binary path id ty op method left right conversion sqlOp l r =>
      exact isNullLiteral_combine sqlOp l r
  | _ => rfl

theorem NullsInPlace.operandsBecome (place : NullsInPlace t)
    (element : ∀ σ ∈ frame.shape.terms, σ.isNullLiteral = false) :
    t.Everywhere (OperandsBecome (fun σ => σ.isNullLiteral = false) slots frame) := by
  intro path e he op method left right conversion hnode test hleft hright
  have shown : comparesHiddenNull e = false := place.compared path e he
  have bare : isInlineNull left.bare = false ∧ isInlineNull right.bare = false := by
    simpa [comparesHiddenNull, hnode, test, hleft, hright] using shown
  intro leftPath rightPath l r hl hr _ _
  have notNull := isNullLiteral_of_converts hl element bare.1
  have notNull' := isNullLiteral_of_converts hr element bare.2
  exact ⟨notNull, notNull'⟩

end Nulls

/-- An equality or inequality beside an inlined null is always a null test.  No `=` or `<>` in the query
of a template whose nulls are in place is applied to a null. -/
theorem nulls_tested (rules : List Rule) (schema : Schema) (t : Expr) {query : Query}
    (h : (⟨rules, schema, t⟩ : Compiler).query = .ok query) :
    (NullsInPlace t → ∀ scope ∈ query.scopes, ∀ τ ∈ scope.terms ++ scope.bounds,
      τ.ComparesOnly fun σ => σ.isNullLiteral = false) ∧
    ∀ frame path slots slots' id ty op method left right conversion negated τ,
      nullTest? op = some negated → isInlineNull left = true ∨ isInlineNull right = true →
      (convert frame path ⟨id, ty, .binary op method left right conversion⟩).run slots =
        .ok (τ, slots') →
      ∃ σ, τ = .isNull σ negated ∧
        ((isInlineNull right = true ∧
            (convert frame (path ++ [0]) left).run slots = .ok (σ, slots')) ∨
          (isInlineNull left = true ∧
            (convert frame (path ++ [1]) right).run slots = .ok (σ, slots'))) := by
  constructor
  · intro place
    refine comparesOnly_of_query h ?_ (fun _ element => place.operandsBecome element) ?_
    · intro s name
      rfl
    · intro link hlink op value hvalue frame path τ element hτ
      have bare := place.projected link hlink op value hvalue
      exact isNullLiteral_asValue _ (isNullLiteral_of_converts hτ element bare)
  · intro frame path slots slots' id ty op method left right conversion negated τ test null hrun
    rcases run_equality test hrun with tested | ⟨l, between, r, hleft, hright, -⟩
    · exact tested
    · simp [hleft, hright] at null

/-- A null that is compared with directly, after a projection without one. -/
theorem wishes_nulls_tested :
    ∃ query, (Sample.wishing Sample.nameGiven).query = .ok query ∧
      query.root.filter = some (.isNull (.column 0 "name") true) ∧
      ∀ scope ∈ query.scopes, ∀ τ ∈ scope.terms ++ scope.bounds,
        τ.ComparesOnly fun σ => σ.isNullLiteral = false := by
  obtain ⟨query, hquery, hfilter⟩ : ∃ query, (Sample.wishing Sample.nameGiven).query = .ok query ∧
      query.root.filter = some (.isNull (.column 0 "name") true) :=
    Compiler.exists_query_of_view (by decide +kernel)
  have place : NullsInPlace (Sample.wishes (.empty 0) Sample.nameGiven) := by
    constructor
    case compared =>
      simp [Sample.wishes, Sample.nameGiven, Sample.wished, Expr.everywhere_node, Node.children,
        comparesHiddenNull, isInlineNull, Ty.isInlined, Expr.asConstant?, Value.isNull]
    case projected => decide +kernel
  have tested := (nulls_tested Rule.all Sample.schema _ hquery).1 place
  exact ⟨query, hquery, hfilter, tested⟩

/-- An inlined null under a conversion is compared with. -/
theorem nulls_compared_under_wrappers :
    ¬ ∀ (rules : List Rule) (schema : Schema) (t : Expr) (query : Query),
      (⟨rules, schema, t⟩ : Compiler).query = .ok query →
        ∀ scope ∈ query.scopes, ∀ τ ∈ scope.terms ++ scope.bounds,
          τ.ComparesOnly fun σ => σ.isNullLiteral = false := by
  intro claimed
  obtain ⟨query, hquery, hfilter⟩ :
      ∃ query, (Sample.wishing Sample.nameConverted).query = .ok query ∧
        query.root.filter = some (.binary .equal (.column 0 "name") (.literal .null)) :=
    Compiler.exists_query_of_view (by decide +kernel)
  have hroot : query.root ∈ query.scopes := by simp [Query.scopes]
  have hterm : .binary .equal (.column 0 "name") (.literal .null) ∈
      query.root.terms ++ query.root.bounds := by
    simp [Scope.terms, hfilter]
  have operands := claimed _ _ _ query hquery query.root hroot _ hterm .equal _ _
    List.mem_cons_self (.inl rfl)
  exact absurd operands.2 (by decide)

end Compile
end QueryPlan
