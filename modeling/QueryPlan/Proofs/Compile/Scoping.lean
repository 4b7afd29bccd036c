import QueryPlan.Proofs.Compile.Slots

/-!
# Scoping — every column of a compiled query is in scope

A term may name columns only of what its own scope reads: the innermost scope reads a table, and every
other scope reads the output of the scope before it.  Bounds name no columns at all, and parameters
refer to registered slots.

The current element is written in terms of what the current scope reads, and these terms are
substituted into filters, sort keys and later projections.  The invariant `Scoped` therefore covers
the shape of the element together with all scopes, closed or open.  Closing a scope replaces every
term of the shape by an output column of the scope that was closed, which is what keeps references to
inner scopes from escaping.
-/

namespace QueryPlan
namespace Sql

/-! ## Terms of a query -/

namespace Term

/-- A term and every term inside it. -/
def subterms : Term → List Term
  | column scope name => [column scope name]
  | literal value => [literal value]
  | param index => [param index]
  | binary op left right => binary op left right :: (left.subterms ++ right.subterms)
  | not operand => not operand :: operand.subterms
  | negate operand => negate operand :: operand.subterms
  | isNull operand negated => isNull operand negated :: operand.subterms
  | caseWhen test ifTrue ifFalse =>
      caseWhen test ifTrue ifFalse :: (test.subterms ++ ifTrue.subterms ++ ifFalse.subterms)

end Term

namespace Shape

def terms : Shape → List Term
  | members ms => ms.map (·.2)
  | scalar term => [term]

end Shape

namespace Scope

/-- The terms that are evaluated on every row that a scope reads. -/
def terms (scope : Scope) : List Term :=
  scope.filter.toList ++ scope.orderBy.map (·.term) ++ scope.columns.map (·.term)

def bounds (scope : Scope) : List Term :=
  scope.take.toList ++ scope.skip.toList

end Scope

/-- A query whose scopes read one another in a row down to a table, whose terms name only columns that
their scope reads, and which has a text. -/
structure Query.WellScoped (query : Query) : Prop where
  innermost : ∃ scope source, query.scopes[0]? = some scope ∧ scope.source = some source ∧
    scope.parent = none
  nested : ∀ k scope, query.scopes[k + 1]? = some scope →
    scope.source = none ∧ scope.parent = some k
  root : query.scopes[query.rootId]? = some query.root ∧ query.rootId + 1 = query.scopes.length
  depth : query.depth + 1 = query.scopes.length
  tableColumns : ∀ scope source, query.scopes[0]? = some scope → scope.source = some source →
    ∀ τ ∈ scope.terms, ∀ s name, .column s name ∈ τ.subterms →
      s = 0 ∧ ∃ field ∈ source.model.fields, field.column = name
  outputColumns : ∀ k parent scope, query.scopes[k]? = some parent →
    query.scopes[k + 1]? = some scope →
      ∀ τ ∈ scope.terms, ∀ s name, .column s name ∈ τ.subterms →
        s = k ∧ ∃ column ∈ parent.columns, column.name = name
  bounds : ∀ scope ∈ query.scopes, ∀ τ ∈ scope.bounds, ∀ s name, .column s name ∉ τ.subterms
  params : ∀ scope ∈ query.scopes, ∀ τ ∈ scope.terms ++ scope.bounds,
    ∀ index, .param index ∈ τ.subterms → index < query.slots.length
  text : query.text?.isSome = true

/-! ## Terms within a scope -/

/-- A term names only the given columns, and its parameters refer to the first few slots. -/
structure Term.Within (visible : List (Nat × String)) (count : Nat) (τ : Term) : Prop where
  columns : ∀ s name, .column s name ∈ τ.subterms → (s, name) ∈ visible
  params : ∀ index, .param index ∈ τ.subterms → index < count

namespace Term.Within

variable {visible : List (Nat × String)} {count : Nat} {τ l r c : Term}

theorem column {s : Nat} {name : String} (h : (s, name) ∈ visible) :
    (Term.column s name).Within visible count :=
  ⟨by simpa [subterms] using h, by simp [subterms]⟩

theorem literal (value : Value) : (Term.literal value).Within visible count :=
  ⟨by simp [subterms], by simp [subterms]⟩

theorem param {index : Nat} (h : index < count) : (Term.param index).Within visible count :=
  ⟨by simp [subterms], by simpa [subterms] using h⟩

theorem binary (op : BinaryOp) (hl : l.Within visible count) (hr : r.Within visible count) :
    (Term.binary op l r).Within visible count := by
  constructor
  · intro s name hmem
    simp only [subterms, List.mem_cons, List.mem_append, reduceCtorEq, false_or] at hmem
    exact hmem.elim (hl.columns s name) (hr.columns s name)
  · intro index hmem
    simp only [subterms, List.mem_cons, List.mem_append, reduceCtorEq, false_or] at hmem
    exact hmem.elim (hl.params index) (hr.params index)

theorem not (h : τ.Within visible count) : (Term.not τ).Within visible count :=
  ⟨by simpa [subterms] using h.columns, by simpa [subterms] using h.params⟩

theorem negate (h : τ.Within visible count) : (Term.negate τ).Within visible count :=
  ⟨by simpa [subterms] using h.columns, by simpa [subterms] using h.params⟩

theorem isNull (negated : Bool) (h : τ.Within visible count) :
    (Term.isNull τ negated).Within visible count :=
  ⟨by simpa [subterms] using h.columns, by simpa [subterms] using h.params⟩

theorem caseWhen (hc : c.Within visible count) (hl : l.Within visible count)
    (hr : r.Within visible count) : (Term.caseWhen c l r).Within visible count := by
  constructor
  · intro s name hmem
    simp only [subterms, List.mem_cons, List.mem_append, reduceCtorEq, false_or, or_assoc] at hmem
    rcases hmem with hmem | hmem | hmem
    · exact hc.columns s name hmem
    · exact hl.columns s name hmem
    · exact hr.columns s name hmem
  · intro index hmem
    simp only [subterms, List.mem_cons, List.mem_append, reduceCtorEq, false_or, or_assoc] at hmem
    rcases hmem with hmem | hmem | hmem
    · exact hc.params index hmem
    · exact hl.params index hmem
    · exact hr.params index hmem

theorem ofPredicate (h : τ.Within visible count) : (Term.ofPredicate τ).Within visible count :=
  h.caseWhen (.literal _) (.literal _)

end Term.Within

end Sql

namespace Compile

open Sql (Context OrderItem Query Scope Shape Slot Term)

/-! ## Conversion -/

theorem combine_within {visible : List (Nat × String)} {count : Nat} (op : Sql.BinaryOp)
    {l r : Term} (hl : l.Within visible count) (hr : r.Within visible count) :
    (combine op l r).Within visible count := by
  unfold combine
  split
  · split <;> exact hl.binary _ hr
  · exact hl.binary _ hr

theorem asValue_within {visible : List (Nat × String)} {count : Nat} (ty : Ty) {τ : Term}
    (h : τ.Within visible count) : (asValue ty τ).Within visible count := by
  unfold asValue
  split
  · exact h.ofPredicate
  · exact h

theorem mem_terms_of_member? {shape : Shape} {name : String} {τ : Term}
    (h : shape.member? name = some τ) : τ ∈ shape.terms := by
  cases shape with
  | members ms =>
      rcases Option.map_eq_some_iff.1 h with ⟨m, hfind, rfl⟩
      exact List.mem_map_of_mem (List.mem_of_find?_eq_some hfind)
  | scalar term => cases h

theorem mem_terms_of_scalar {shape : Shape} {τ : Term} (h : shape = .scalar τ) : τ ∈ shape.terms := by
  rw [h]
  exact List.mem_singleton.2 rfl

/-- What the terms of the element name is all that a frame can name. -/
structure Frame.Within (visible : List (Nat × String)) (count : Nat) (frame : Frame) : Prop where
  shape : ∀ name, frame.param = some name → ∀ τ ∈ frame.shape.terms, τ.Within visible count

section Conversion

variable {slots : List Slot} {frame : Frame} {path : Path} {visible : List (Nat × String)}

theorem within_of_converts {e : Expr} {τ : Term} (h : Converts slots frame path e τ)
    (hframe : frame.Within visible slots.length) : τ.Within visible slots.length := by
  induction h with
  | element bound shape => exact hframe.shape _ bound _ (mem_terms_of_scalar shape)
  | field bound found => exact hframe.shape _ bound _ (mem_terms_of_member? found)
  | captured slot => exact .param (List.getElem?_eq_some_iff.1 slot).1
  | inlined inlined => exact .literal _
  | literal notInlined scalar slot => exact .param (List.getElem?_eq_some_iff.1 slot).1
  | nullRight test null _ ih => exact ih.isNull _
  | nullLeft test notNull null _ ih => exact ih.isNull _
  | binary noTest operator _ _ ihl ihr => exact combine_within _ ihl ihr
  | not _ ih => exact ih.not
  | negate _ ih => exact ih.negate
  | transparent wrapper _ ih => exact ih
  | conditional _ _ _ ihc iha ihb => exact ihc.caseWhen iha ihb

theorem within_of_convertsAll {index : Nat} {values : List Expr} {terms : List Term}
    (h : ConvertsAll slots frame path index values terms)
    (hframe : frame.Within visible slots.length) : ∀ τ ∈ terms, τ.Within visible slots.length := by
  induction h with
  | nil => simp
  | cons head _ ih =>
      rw [List.forall_mem_cons]
      exact ⟨asValue_within _ (within_of_converts head hframe), ih⟩

theorem within_of_projects {body : Expr} {shape : Shape}
    (h : Projects slots frame path body shape) (hframe : frame.Within visible slots.length) :
    ∀ τ ∈ shape.terms, τ.Within visible slots.length := by
  -- A member's term is one of the terms that it was paired with.
  have named : ∀ {names : List String} {terms : List Term},
      (∀ τ ∈ terms, τ.Within visible slots.length) →
        ∀ τ ∈ (Shape.members (names.zip terms)).terms, τ.Within visible slots.length := by
    intro names terms hterms τ hτ
    rcases List.mem_map.1 hτ with ⟨m, hm, rfl⟩
    exact hterms _ (List.of_mem_zip hm).2
  cases h with
  | construct _ values => exact named (within_of_convertsAll values hframe)
  | memberInit _ values => exact named (within_of_convertsAll values hframe)
  | scalar value =>
      rw [Shape.terms, List.forall_mem_singleton]
      exact asValue_within _ (within_of_converts value hframe)

theorem within_of_keyed {body : Expr} {terms : List Term} (h : Keyed slots frame path body terms)
    (hframe : frame.Within visible slots.length) : ∀ τ ∈ terms, τ.Within visible slots.length := by
  cases h with
  | construct values => exact within_of_convertsAll values hframe
  | memberInit _ values => exact within_of_convertsAll values hframe
  | scalar value =>
      rw [List.forall_mem_singleton]
      exact asValue_within _ (within_of_converts value hframe)

end Conversion

/-! ## Scopes -/

/-- The columns that the scope at a position reads: those of the table in the innermost one, and the
output columns of the scope before it in every other. -/
def visible (scopes : List Scope) : Nat → List (Nat × String)
  | 0 =>
      match scopes[0]?.bind (·.source) with
      | some source => source.model.fields.map fun field => (0, field.column)
      | none => []
  | k + 1 =>
      match scopes[k]? with
      | some parent => parent.columns.map fun column => (k, column.name)
      | none => []

/-- What a scope reads depends on the table and on the scopes before it. -/
theorem visible_congr {scopes scopes' : List Scope} {k : Nat}
    (source : scopes[0]?.bind (·.source) = scopes'[0]?.bind (·.source))
    (before : ∀ j < k, scopes[j]? = scopes'[j]?) : visible scopes k = visible scopes' k := by
  cases k with
  | zero => simp only [visible, source]
  | succ k => simp only [visible, before k (Nat.lt_succ_self k)]

/-- Scopes that read one another in a row, with terms that name only what their scope reads. -/
structure ScopedList (count : Nat) (scopes : List Scope) : Prop where
  innermost : ∃ scope source, scopes[0]? = some scope ∧ scope.source = some source ∧
    scope.parent = none
  nested : ∀ (k : Nat) (scope : Scope), scopes[k + 1]? = some scope →
    scope.source = none ∧ scope.parent = some k
  terms : ∀ (k : Nat) (scope : Scope), scopes[k]? = some scope →
    ∀ τ ∈ scope.terms, τ.Within (visible scopes k) count
  bounds : ∀ scope ∈ scopes, ∀ τ ∈ scope.bounds, τ.Within [] count

/-- A context whose scopes are scoped and whose element is written in what the current scope reads. -/
structure Scoped (count : Nat) (ctx : Context) : Prop where
  scopes : ScopedList count ctx.scopes
  shape : ∀ τ ∈ ctx.shape.terms, τ.Within (visible ctx.scopes ctx.currentId) count

theorem getElem?_concat_eq_some {α : Type} {inner : List α} {last x : α} {k : Nat} :
    (inner ++ [last])[k]? = some x ↔ inner[k]? = some x ∨ k = inner.length ∧ last = x := by
  rcases Nat.lt_trichotomy k inner.length with hlt | heq | hgt
  · rw [List.getElem?_append_left hlt]
    simp [Nat.ne_of_lt hlt]
  · subst heq
    simp
  · have hnone : (inner ++ [last])[k]? = none := List.getElem?_eq_none (by simp; omega)
    have hinner : inner[k]? = none := List.getElem?_eq_none (Nat.le_of_lt hgt)
    simp [hnone, hinner, Nat.ne_of_gt hgt]

namespace ScopedList

variable {count : Nat} {inner : List Scope} {current current' : Scope}

theorem visible_replace {k : Nat} (hk : k ≤ inner.length) (hsource : current'.source = current.source) :
    visible (inner ++ [current']) k = visible (inner ++ [current]) k := by
  apply visible_congr
  · cases inner with
    | nil => simp [hsource]
    | cons first rest => rfl
  · intro j hj
    have hlt : j < inner.length := Nat.lt_of_lt_of_le hj hk
    rw [List.getElem?_append_left hlt, List.getElem?_append_left hlt]

/-- The last scope may be changed, as long as it goes on reading what it reads. -/
theorem replace (h : ScopedList count (inner ++ [current]))
    (hsource : current'.source = current.source) (hparent : current'.parent = current.parent)
    (hterms : ∀ τ ∈ current'.terms, τ.Within (visible (inner ++ [current]) inner.length) count)
    (hbounds : ∀ τ ∈ current'.bounds, τ.Within [] count) :
    ScopedList count (inner ++ [current']) where
  innermost := by
    rcases h.innermost with ⟨scope, source, hscope, hrest⟩
    rcases getElem?_concat_eq_some.1 hscope with hinner | ⟨hlength, rfl⟩
    · exact ⟨scope, source, getElem?_concat_eq_some.2 (.inl hinner), hrest⟩
    · refine ⟨current', source, getElem?_concat_eq_some.2 (.inr ⟨hlength, rfl⟩), ?_⟩
      rwa [hsource, hparent]
  nested := by
    intro k scope hscope
    rcases getElem?_concat_eq_some.1 hscope with hinner | ⟨hlength, rfl⟩
    · exact h.nested k scope (getElem?_concat_eq_some.2 (.inl hinner))
    · rw [hsource, hparent]
      exact h.nested k current (getElem?_concat_eq_some.2 (.inr ⟨hlength, rfl⟩))
  terms := by
    intro k scope hscope
    rcases getElem?_concat_eq_some.1 hscope with hinner | ⟨hlength, rfl⟩
    -- Nothing reads from the last scope yet, so the others read what they read before.
    · have hk : k ≤ inner.length := Nat.le_of_lt (List.getElem?_eq_some_iff.1 hinner).1
      rw [visible_replace hk hsource]
      exact h.terms k scope (getElem?_concat_eq_some.2 (.inl hinner))
    · rw [visible_replace (Nat.le_of_eq hlength) hsource, hlength]
      exact hterms
  bounds := by
    rw [List.forall_mem_append, List.forall_mem_singleton]
    exact ⟨(List.forall_mem_append.1 h.bounds).1, hbounds⟩

/-- A fresh scope reads the output of the last one. -/
theorem push {scopes : List Scope} (h : ScopedList count scopes) (hne : scopes ≠ []) :
    ScopedList count (scopes ++ [.ofParent (scopes.length - 1)]) where
  innermost := by
    rcases h.innermost with ⟨scope, source, hscope, hrest⟩
    exact ⟨scope, source, getElem?_concat_eq_some.2 (.inl hscope), hrest⟩
  nested := by
    intro k scope hscope
    rcases getElem?_concat_eq_some.1 hscope with hinner | ⟨hlength, rfl⟩
    · exact h.nested k scope hinner
    · refine ⟨rfl, ?_⟩
      rw [← hlength]
      rfl
  terms := by
    intro k scope hscope
    rcases getElem?_concat_eq_some.1 hscope with hinner | ⟨-, rfl⟩
    -- A scope reads from scopes before it, and those are all there already.
    · have hlt : k < scopes.length := (List.getElem?_eq_some_iff.1 hinner).1
      have hsame : visible (scopes ++ [.ofParent (scopes.length - 1)]) k = visible scopes k := by
        apply visible_congr
        · rw [List.getElem?_append_left (List.length_pos_iff.2 hne)]
        · intro j hj
          rw [List.getElem?_append_left (Nat.lt_trans hj hlt)]
      rw [hsame]
      exact h.terms k scope hinner
    · simp [Scope.terms, Scope.ofParent]
  bounds := by
    rw [List.forall_mem_append, List.forall_mem_singleton]
    exact ⟨h.bounds, by simp [Scope.bounds, Scope.ofParent]⟩

end ScopedList

/-! ## Contexts -/

namespace Scoped

variable {count : Nat} {ctx : Context}

/-- The current scope may be changed, as long as it goes on reading what it reads. -/
theorem replace (h : Scoped count ctx) (current : Scope)
    (hsource : current.source = ctx.current.source) (hparent : current.parent = ctx.current.parent)
    (hterms : ∀ τ ∈ current.terms, τ.Within (visible ctx.scopes ctx.currentId) count)
    (hbounds : ∀ τ ∈ current.bounds, τ.Within [] count) (slots : List Slot) :
    Scoped count { ctx with current, slots } where
  scopes := h.scopes.replace hsource hparent hterms hbounds
  shape := by
    intro τ hτ
    have hsame : visible (ctx.inner ++ [current]) ctx.inner.length =
        visible ctx.scopes ctx.currentId := ScopedList.visible_replace (Nat.le_refl _) hsource
    exact hsame ▸ h.shape τ hτ

theorem current (h : Scoped count ctx) :
    (∀ τ ∈ ctx.current.terms, τ.Within (visible ctx.scopes ctx.currentId) count) ∧
      ∀ τ ∈ ctx.current.bounds, τ.Within [] count := by
  have hlast : ctx.scopes[ctx.currentId]? = some ctx.current :=
    getElem?_concat_eq_some.2 (.inr ⟨rfl, rfl⟩)
  exact ⟨h.scopes.terms _ _ hlast, h.scopes.bounds _ (List.mem_of_getElem? hlast)⟩

theorem frame (h : Scoped count ctx) (param : Option String) (place : Place) :
    Frame.Within (visible ctx.scopes ctx.currentId) count ⟨ctx.shape, param, place⟩ :=
  ⟨fun _ _ => h.shape⟩

/-- The columns that select the element are within what the current scope reads. -/
theorem columns (h : Scoped count ctx) :
    ∀ column ∈ ctx.shape.columns, column.term.Within (visible ctx.scopes ctx.currentId) count := by
  intro column hcolumn
  apply h.shape
  cases hshape : ctx.shape with
  | members ms =>
      rw [hshape] at hcolumn
      rcases List.mem_map.1 hcolumn with ⟨m, hm, rfl⟩
      exact List.mem_map_of_mem hm
  | scalar term =>
      rw [hshape] at hcolumn
      rcases List.mem_singleton.1 hcolumn with rfl
      exact List.mem_singleton.2 rfl

/-- Selecting the element from the current scope keeps all scopes scoped. -/
theorem close (h : Scoped count ctx) :
    ScopedList count (ctx.inner ++ [{ ctx.current with columns := ctx.shape.columns }]) := by
  rcases h.current with ⟨hterms, hbounds⟩
  refine h.scopes.replace rfl rfl ?_ hbounds
  simp only [Scope.terms, List.forall_mem_append, List.forall_mem_map] at hterms ⊢
  exact ⟨hterms.1, h.columns⟩

theorem ofSource (source : TableSource) (element : Ty) : Scoped count (.ofSource source element) where
  scopes := {
    innermost := ⟨.ofSource source, source, rfl, rfl, rfl⟩
    nested := by simp [Context.scopes, Context.ofSource]
    terms := by
      intro k scope hscope
      rcases getElem?_concat_eq_some.1 hscope with hinner | ⟨-, rfl⟩
      · cases hinner
      · simp [Scope.terms, Context.ofSource, Scope.ofSource]
    bounds := by simp [Context.scopes, Context.ofSource, Scope.bounds, Scope.ofSource] }
  shape := by
    intro τ hτ
    simp only [Context.ofSource, Shape.terms, List.map_map, List.mem_map] at hτ
    rcases hτ with ⟨field, hfield, rfl⟩
    exact .column (List.mem_map_of_mem hfield)

/-- A closed scope is read through its output columns alone. -/
theorem wrap (h : Scoped count ctx) : Scoped count ctx.wrap where
  scopes := by
    have hpush := h.close.push (by simp)
    simpa [Context.wrap, Context.scopes, Context.currentId] using hpush
  shape := by
    -- All that the fresh scope reads is the element of the closed one, column by column.
    have hvisible : visible ctx.wrap.scopes ctx.wrap.currentId =
        ctx.shape.columns.map fun column => (ctx.currentId, column.name) := by
      simp [visible, Context.wrap, Context.scopes, Context.currentId]
    rw [hvisible]
    intro τ hτ
    simp only [Context.wrap] at hτ
    cases hshape : ctx.shape with
    | members ms =>
        rw [hshape, Shape.through, Shape.terms, List.map_map] at hτ
        rcases List.mem_map.1 hτ with ⟨m, hm, rfl⟩
        exact .column (by
          rw [Shape.columns, List.map_map]
          exact List.mem_map.2 ⟨m, hm, rfl⟩)
    | scalar term =>
        rw [hshape] at hτ
        rcases List.mem_singleton.1 hτ with rfl
        exact .column (List.mem_singleton.2 rfl)

theorem wrapIf (h : Scoped count ctx) (condition : Bool) : Scoped count (ctx.wrapIf condition) := by
  cases condition with
  | false => exact h
  | true => exact h.wrap

end Scoped

/-! ## Chains -/

theorem forall_terms {scope : Scope} {P : Term → Prop} :
    (∀ τ ∈ scope.terms, P τ) ↔
      (∀ τ ∈ scope.filter, P τ) ∧ (∀ item ∈ scope.orderBy, P item.term) ∧
        ∀ column ∈ scope.columns, P column.term := by
  simp only [Scope.terms, List.forall_mem_append, List.forall_mem_map, Option.mem_toList,
    Option.mem_def, and_assoc]

section Steps

variable {visible : List (Nat × String)} {count : Nat} {scope : Scope}

theorem addFilter_within {predicate : Term} (h : ∀ τ ∈ scope.terms, τ.Within visible count)
    (hpredicate : predicate.Within visible count) :
    ∀ τ ∈ (Compiler.addFilter scope predicate).terms, τ.Within visible count := by
  rw [forall_terms] at h ⊢
  rcases h with ⟨hfilter, hrest⟩
  unfold Compiler.addFilter
  split
  · next existing hexisting =>
      have hboth : (Term.binary .and existing predicate).Within visible count :=
        .binary _ (hfilter existing hexisting) hpredicate
      exact ⟨by simpa using hboth, hrest⟩
  · exact ⟨by simpa using hpredicate, hrest⟩

theorem addOrder_within (kind : SortKind) {terms : List Term}
    (h : ∀ τ ∈ scope.terms, τ.Within visible count) (hterms : ∀ τ ∈ terms, τ.Within visible count) :
    ∀ τ ∈ (Compiler.addOrder scope kind terms).terms, τ.Within visible count := by
  rw [forall_terms] at h ⊢
  rcases h with ⟨hfilter, horder, hcolumns⟩
  refine ⟨hfilter, ?_, hcolumns⟩
  -- A primary sort drops the items there are, a secondary one keeps them.
  have hkept : ∀ item ∈ (if kind.secondary then scope.orderBy else []),
      item.term.Within visible count := by
    split
    · exact horder
    · simp
  intro item hitem
  rcases List.mem_append.1 hitem with hitem | hitem
  · exact hkept item hitem
  · rcases List.mem_map.1 hitem with ⟨τ, hτ, rfl⟩
    exact hterms τ hτ

end Steps

theorem scoped_of_extends {slots : List Slot} {path : Path} {link : Link} {below ctx : Context}
    (step : Extends slots path link below ctx) (h : Scoped slots.length below) :
    Scoped slots.length ctx := by
  cases step with
  | @filter param body closed τ op selector hclosed predicate =>
      have hclosed : Scoped slots.length closed := hclosed ▸ h.wrapIf _
      have hτ := within_of_converts predicate (hclosed.frame _ _)
      have hsame : (Compiler.addFilter closed.current τ).source = closed.current.source ∧
          (Compiler.addFilter closed.current τ).parent = closed.current.parent ∧
          (Compiler.addFilter closed.current τ).bounds = closed.current.bounds := by
        unfold Compiler.addFilter
        split <;> exact ⟨rfl, rfl, rfl⟩
      rcases hclosed.current with ⟨hterms, hbounds⟩
      exact hclosed.replace (Compiler.addFilter closed.current τ) hsame.1 hsame.2.1
        (addFilter_within hterms hτ) (hsame.2.2 ▸ hbounds) _
  | identity op selector element => exact h
  -- A projection is substituted for the element and written into no scope yet.
  | select op selector notElement projected =>
      exact ⟨h.scopes, within_of_projects projected (h.frame _ _)⟩
  | @sort kind param body closed terms op selector allowed hclosed keyed =>
      have hclosed : Scoped slots.length closed := hclosed ▸ h.wrapIf _
      have hkeys := within_of_keyed keyed (hclosed.frame _ _)
      rcases hclosed.current with ⟨hterms, hbounds⟩
      exact hclosed.replace (Compiler.addOrder closed.current kind terms) rfl rfl
        (addOrder_within kind hterms hkeys) hbounds _
  -- Bounds are converted without an element, so there is no column that they could name.
  | @take closed τ op hclosed bound =>
      have hclosed : Scoped slots.length closed := hclosed ▸ h.wrapIf _
      have hτ : τ.Within [] slots.length := within_of_converts bound ⟨by simp⟩
      rcases hclosed.current with ⟨hterms, hbounds⟩
      refine hclosed.replace { closed.current with take := some τ } rfl rfl hterms ?_ _
      simp only [Scope.bounds, List.forall_mem_append] at hbounds ⊢
      exact ⟨by simpa using hτ, hbounds.2⟩
  | @skip closed τ op hclosed bound =>
      have hclosed : Scoped slots.length closed := hclosed ▸ h.wrapIf _
      have hτ : τ.Within [] slots.length := within_of_converts bound ⟨by simp⟩
      rcases hclosed.current with ⟨hterms, hbounds⟩
      refine hclosed.replace { closed.current with skip := some τ } rfl rfl hterms ?_ _
      simp only [Scope.bounds, List.forall_mem_append] at hbounds ⊢
      exact ⟨hbounds.1, by simpa using hτ⟩

theorem scoped_of_builds {schema : Schema} {slots : List Slot} {path : Path} {e : Expr}
    {ctx : Context} (h : Builds schema slots path e ctx) : Scoped slots.length ctx := by
  induction h with
  | table literal resolved => exact .ofSource _ _
  | link call _ step ih => exact scoped_of_extends step ih

/-! ## Queries -/

section Nesting

variable {count : Nat} {scopes : List Scope}

/-- The walk along parents passes every scope before the one that it starts from. -/
theorem depthFrom_eq (h : ScopedList count scopes) {k bound : Nat} {scope : Scope}
    (hscope : scopes[k]? = some scope) (hbound : k ≤ bound) :
    Query.depthFrom scopes bound scope = k := by
  induction k generalizing bound scope with
  | zero =>
      rcases h.innermost with ⟨first, source, hfirst, -, hparent⟩
      cases hfirst.symm.trans hscope
      cases bound with
      | zero => rfl
      | succ bound => simp [Query.depthFrom, hparent]
  | succ k ih =>
      have hparent := (h.nested k scope hscope).2
      have hlt : k < scopes.length := Nat.lt_of_succ_lt (List.getElem?_eq_some_iff.1 hscope).1
      have hbefore : scopes[k]? = some scopes[k] := List.getElem?_eq_getElem hlt
      cases bound with
      | zero => omega
      -- The parent is one position further in, and so is the bound.
      | succ bound =>
          have hdepth := ih hbefore (Nat.le_of_succ_le_succ hbound)
          simp [Query.depthFrom, hparent, hbefore, hdepth]

/-- A scope has a text, because the scopes before it have one. -/
theorem isSome_scopeText? (h : ScopedList count scopes) {k bound : Nat} (hk : k < scopes.length)
    (hbound : k < bound) : (Query.scopeText? scopes bound k).isSome = true := by
  induction k generalizing bound with
  | zero =>
      rcases h.innermost with ⟨first, source, hfirst, hsource, -⟩
      cases bound with
      | zero => omega
      | succ bound => simp [Query.scopeText?, hfirst, hsource]
  | succ k ih =>
      have hscope : scopes[k + 1]? = some scopes[k + 1] := List.getElem?_eq_getElem hk
      rcases h.nested k _ hscope with ⟨hsource, hparent⟩
      cases bound with
      | zero => omega
      | succ bound =>
          have htext := ih (Nat.lt_of_succ_lt hk) (Nat.lt_of_succ_lt_succ hbound)
          rcases Option.isSome_iff_exists.1 htext with ⟨text, htext⟩
          simp [Query.scopeText?, hscope, hsource, hparent, htext]

end Nesting

/-- Every template that compiles, with any rules and under any schema, compiles to a well-scoped
query. -/
theorem query_wellScoped (rules : List Rule) (schema : Schema) (t : Expr) {query : Query}
    (h : (⟨rules, schema, t⟩ : Compiler).query = .ok query) : query.WellScoped := by
  rcases Compiler.query_ok.1 h with ⟨ctx, hctx, rfl⟩
  have root : t.resolve? (List.replicate 0 0) = some t := t.resolve?_nil
  have hscoped := scoped_of_builds (Compiler.builds_of_build 0 root hctx).2
  have closed : ScopedList ctx.slots.length ctx.finish.scopes := hscoped.close
  have hlength : ctx.finish.rootId + 1 = ctx.finish.scopes.length := by
    simp [Query.rootId, Query.scopes]
  have hroot : ctx.finish.scopes[ctx.finish.rootId]? = some ctx.finish.root :=
    getElem?_concat_eq_some.2 (.inr ⟨rfl, rfl⟩)
  constructor
  case innermost => exact closed.innermost
  case nested => exact closed.nested
  case root => exact ⟨hroot, hlength⟩
  case depth =>
    have hdepth : ctx.finish.depth = ctx.finish.rootId :=
      depthFrom_eq closed hroot (by omega)
    rw [hdepth, hlength]
  case tableColumns =>
    intro scope source hscope hsource τ hτ s name hcolumn
    have hmem := (closed.terms 0 scope hscope τ hτ).columns s name hcolumn
    simp only [visible, hscope, Option.bind_some, hsource, List.mem_map, Prod.mk.injEq] at hmem
    rcases hmem with ⟨field, hfield, hs, hname⟩
    exact ⟨hs.symm, field, hfield, hname⟩
  case outputColumns =>
    intro k parent scope hparent hscope τ hτ s name hcolumn
    have hmem := (closed.terms (k + 1) scope hscope τ hτ).columns s name hcolumn
    simp only [visible, hparent, List.mem_map, Prod.mk.injEq] at hmem
    rcases hmem with ⟨column, hmem, hs, hname⟩
    exact ⟨hs.symm, column, hmem, hname⟩
  case bounds =>
    intro scope hscope τ hτ s name hcolumn
    cases (closed.bounds scope hscope τ hτ).columns s name hcolumn
  case params =>
    intro scope hscope τ hτ
    rcases List.getElem?_of_mem hscope with ⟨k, hk⟩
    rcases List.mem_append.1 hτ with hτ | hτ
    · exact (closed.terms k scope hk τ hτ).params
    · exact (closed.bounds scope hscope τ hτ).params
  case text => exact isSome_scopeText? closed (by omega) (by omega)

/-! ## Two nested scopes -/

/-- The names of the adults among the later namesakes: the sort applies to one page, the filter to a
page of what was sorted. -/
def Sample.laterNames (age : Int64) (env : Env Value) : Expr :=
  let x : Expr := ⟨20, element, .parameter "x"⟩
  let limit : Expr := ⟨21, .int64, .constant (.long age)⟩
  let ageOf : Expr := ⟨22, .int64, .member ⟨element, "age", .int64⟩ (some x)⟩
  let nameOf : Expr := ⟨23, .text, .member ⟨element, "name", .text⟩ (some x)⟩
  let old : Expr := ⟨24, .bool, .binary .greaterThanOrEqual none ageOf limit none⟩
  let byName : Expr := ⟨25, .text, .lambda [⟨"x", element⟩] nameOf⟩
  let adult : Expr := ⟨26, .bool, .lambda [⟨"x", element⟩] old⟩
  let sorted : Expr :=
    ⟨27, .queryable element, .call Operator.orderBy.method none [namesakes age env, byName]⟩
  let later : Expr := ⟨28, .queryable element, .call Operator.skip.method none [sorted, limit]⟩
  let adults : Expr := ⟨29, .queryable element, .call Operator.filter.method none [later, adult]⟩
  ⟨30, .queryable .text, .call Operator.select.method none [adults, byName]⟩

/-- Three scopes read one another, and the names of the outermost one are found in the second. -/
theorem laterNames_wellScoped :
    ∃ query, (⟨Rule.all, Sample.schema, Sample.laterNames 18 (.empty 0)⟩ : Compiler).query =
        .ok query ∧
      query.depth = 2 ∧ query.WellScoped := by
  have ready : ((⟨Rule.all, Sample.schema, Sample.laterNames 18 (.empty 0)⟩ :
      Compiler).query.toOption.any (·.depth == 2)) = true := by
    decide +kernel
  cases hquery : (⟨Rule.all, Sample.schema, Sample.laterNames 18 (.empty 0)⟩ : Compiler).query with
  | error e => simp [hquery, Except.toOption] at ready
  | ok query =>
      have hdepth : query.depth = 2 := by simpa [hquery, Except.toOption] using ready
      exact ⟨query, rfl, hdepth, query_wellScoped Rule.all Sample.schema _ hquery⟩

end Compile
end QueryPlan
