import QueryPlan.Proofs.Compile.Scoping

/-!
# Places — what holds of the terms of a compiled query

The terms of a query stand in filters, sort keys, output columns and bounds.  `Places` gives each of
these places a property.  A chain keeps the properties if each of its links does: whatever a link
converts must have the property of the place it is put in, given that the terms of the element have the
property of output columns (`Places.KeptBy`).

The element is the reason for a property of its own: its terms are substituted into later filters, keys
and projections, and become output columns when a scope is closed.  A closed scope is read through plain
columns, and filters are joined by conjunction, so both must have the property of their place as well
(`Places.Closed`).
-/

namespace QueryPlan
namespace Compile

open Sql (Context OrderItem Query Scope Shape Slot Term)

/-! ## Links of a chain -/

/-- The links of a chain, outermost first. -/
def links (e : Expr) : List Link :=
  match e with
  | ⟨_, _, .call m none [source, argument]⟩ =>
      match Operator.ofMethod? m with
      | some operator => ⟨operator, source, argument⟩ :: links source
      | none => []
  | _ => []
termination_by structural e

theorem links_of_link {e : Expr} {link : Link} (h : Link.ofExpr? e = some link) :
    links e = link :: links link.source := by
  rcases Link.ofExpr?_eq_some.1 h with ⟨id, ty, m, rfl, hm⟩
  rw [links, hm]

/-- The values that a selector body is made of: the parts of an object, or the body itself. -/
def bodyValues (body : Expr) : List Expr :=
  match body.node with
  | .construct construction => construction.args
  | .memberInit _ bindings => Binding.childrenOf bindings
  | _ => [body]

/-- The values that the selector of a link is made of. -/
def Link.values (link : Link) : List Expr :=
  match asSelector? link.argument with
  | some (_, body) => bodyValues body
  | none => []

theorem Link.values_of_selector {link : Link} {param : Param} {body : Expr}
    (h : asSelector? link.argument = some (param, body)) : link.values = bodyValues body := by
  rw [Link.values, h]

section Nodes

variable {P : Expr → Prop} {e body : Expr} {link : Link}

/-- What holds everywhere in a chain holds everywhere in the arguments of its links. -/
theorem everywhere_of_mem_links (h : e.Everywhere P) (hlink : link ∈ links e) :
    link.argument.Everywhere P := by
  induction e using chain_induction with
  | link e first call ih =>
      have hchildren : e.children = [first.source, first.argument] :=
        Link.children_of_ofExpr? call
      rw [links_of_link call] at hlink
      rcases List.mem_cons.1 hlink with rfl | hlink
      · exact h.of_mem_children (by simp [hchildren])
      · exact ih (h.of_mem_children (by simp [hchildren])) hlink
  | other e noCall =>
      unfold links at hlink
      split at hlink
      · next m source argument =>
          have hop : Operator.ofMethod? m = none := by simpa [Link.ofExpr?] using noCall
          rw [hop] at hlink
          cases hlink
      · cases hlink

theorem everywhere_of_selector {argument : Expr} {param : Param} (h : argument.Everywhere P)
    (selector : asSelector? argument = some (param, body)) : body.Everywhere P :=
  h.of_resolve? (resolve?_selectorBody argument.resolve?_nil selector)

theorem everywhere_of_mem_bodyValues {value : Expr} (h : body.Everywhere P)
    (hvalue : value ∈ bodyValues body) : value.Everywhere P := by
  rcases body with ⟨id, ty, node⟩
  cases node with
  | construct construction => exact h.of_mem_children hvalue
  | memberInit construction bindings => exact h.of_mem_children (List.mem_append_right _ hvalue)
  | _ =>
      cases List.mem_singleton.1 hvalue
      exact h

theorem everywhere_of_mem_values {value : Expr} (h : e.Everywhere P) (hlink : link ∈ links e)
    (hvalue : value ∈ link.values) : value.Everywhere P := by
  unfold Link.values at hvalue
  split at hvalue
  · next param body selector =>
      have hbody := everywhere_of_selector (everywhere_of_mem_links h hlink) selector
      exact everywhere_of_mem_bodyValues hbody hvalue
  · cases hvalue

end Nodes

/-! ## Values of selectors -/

section Values

variable {slots : List Slot} {frame : Frame} {path : Path} {body : Expr} {τ : Term}

/-- A term that some value converts to, as a value. -/
def FromValue (slots : List Slot) (frame : Frame) (values : List Expr) (τ : Term) : Prop :=
  ∃ value ∈ values, ∃ path raw, Converts slots frame path value raw ∧ τ = asValue value.ty raw

theorem fromValue_of_convertsAll {index : Nat} {values : List Expr} {terms : List Term}
    (h : ConvertsAll slots frame path index values terms) (hτ : τ ∈ terms) :
    FromValue slots frame values τ := by
  induction h with
  | nil => cases hτ
  | @cons index e rest raw terms head tail ih =>
      rcases List.mem_cons.1 hτ with rfl | hτ
      · exact ⟨e, List.mem_cons_self, path ++ [index], raw, head, rfl⟩
      · rcases ih hτ with ⟨value, hvalue, hfrom⟩
        exact ⟨value, List.mem_cons_of_mem e hvalue, hfrom⟩

theorem FromValue.mono {values values' : List Expr} (h : FromValue slots frame values τ)
    (hle : values ⊆ values') : FromValue slots frame values' τ := by
  rcases h with ⟨value, hvalue, hfrom⟩
  exact ⟨value, hle hvalue, hfrom⟩

/-- A body that converts to a single term constructs no object. -/
theorem bodyValues_of_converts (h : Converts slots frame path body τ) : bodyValues body = [body] := by
  cases h <;> rfl

theorem fromValue_of_scalar (h : Converts slots frame path body τ) :
    FromValue slots frame (bodyValues body) (asValue body.ty τ) := by
  rw [bodyValues_of_converts h]
  exact ⟨body, List.mem_cons_self, path, τ, h, rfl⟩

theorem fromValue_of_projects {shape : Shape} (h : Projects slots frame path body shape)
    (hτ : τ ∈ shape.terms) : FromValue slots frame (bodyValues body) τ := by
  -- A member's term is one of the terms that it was paired with.
  have unzip {names : List String} {terms : List Term}
      (h : τ ∈ (Shape.members (names.zip terms)).terms) : τ ∈ terms := by
    rcases List.mem_map.1 h with ⟨m, hm, rfl⟩
    exact (List.of_mem_zip hm).2
  cases h with
  | construct named values =>
      have hfrom := fromValue_of_convertsAll values (unzip hτ)
      exact hfrom.mono (List.take_subset _ _)
  | memberInit assigned values =>
      have hfrom := fromValue_of_convertsAll values (unzip hτ)
      rwa [← childrenOf_of_assignments? assigned] at hfrom
  | scalar value =>
      cases List.mem_singleton.1 hτ
      exact fromValue_of_scalar value

theorem fromValue_of_keyed {terms : List Term} (h : Keyed slots frame path body terms)
    (hτ : τ ∈ terms) : FromValue slots frame (bodyValues body) τ := by
  cases h with
  | construct values => exact fromValue_of_convertsAll values hτ
  | memberInit assigned values =>
      have hfrom := fromValue_of_convertsAll values hτ
      rwa [← childrenOf_of_assignments? assigned] at hfrom
  | scalar value =>
      cases List.mem_singleton.1 hτ
      exact fromValue_of_scalar value

end Values

/-! ## Places -/

/-- A property for the terms in each place of a query. -/
structure Places where
  filter : Term → Prop
  key : Term → Prop
  column : Term → Prop
  bound : Term → Prop

namespace Places

/-- Every term of a scope has the property of its place. -/
structure HoldIn (p : Places) (scope : Scope) : Prop where
  filter : ∀ τ ∈ scope.filter, p.filter τ
  keys : ∀ item ∈ scope.orderBy, p.key item.term
  columns : ∀ column ∈ scope.columns, p.column column.term
  take : ∀ τ ∈ scope.take, p.bound τ
  skip : ∀ τ ∈ scope.skip, p.bound τ

/-- Every term of a context has the property of its place, and those of the element have the property
of columns. -/
structure Hold (p : Places) (ctx : Context) : Prop where
  inner : ∀ scope ∈ ctx.inner, p.HoldIn scope
  current : p.HoldIn ctx.current
  element : ∀ τ ∈ ctx.shape.terms, p.column τ

/-- The terms that compilation makes without converting anything have the property of their place. -/
structure Closed (p : Places) : Prop where
  column : ∀ s name, p.column (.column s name)
  conjunction : ∀ l r, p.filter l → p.filter r → p.filter (.binary .and l r)

/-- Whatever a link converts has the property of the place it is put in. -/
structure KeptBy (p : Places) (slots : List Slot) (link : Link) : Prop where
  filter : link.operator = .filter → ∀ param body, asSelector? link.argument = some (param, body) →
    ∀ frame path τ, (∀ σ ∈ frame.shape.terms, p.column σ) →
      Converts slots frame path body τ → p.filter τ
  key : (∃ kind, SortKind.ofOperator? link.operator = some kind) → ∀ value ∈ link.values,
    ∀ frame path τ, (∀ σ ∈ frame.shape.terms, p.column σ) →
      Converts slots frame path value τ → p.key (asValue value.ty τ)
  column : link.operator = .select → ∀ value ∈ link.values,
    ∀ frame path τ, (∀ σ ∈ frame.shape.terms, p.column σ) →
      Converts slots frame path value τ → p.column (asValue value.ty τ)
  bound : link.operator = .take ∨ link.operator = .skip →
    ∀ frame path τ, (∀ σ ∈ frame.shape.terms, p.column σ) →
      Converts slots frame path link.argument τ → p.bound τ

section Steps

variable {p : Places} {ctx below : Context}

theorem holdIn_ofParent (parent : Nat) : p.HoldIn (.ofParent parent) := by
  constructor <;> simp [Scope.ofParent]

theorem hold_ofSource (closed : p.Closed) (source : TableSource) (element : Ty) :
    p.Hold (.ofSource source element) where
  inner := by simp [Context.ofSource]
  current := by constructor <;> simp [Context.ofSource, Scope.ofSource]
  element := by
    intro τ hτ
    simp only [Context.ofSource, Shape.terms, List.map_map, List.mem_map] at hτ
    rcases hτ with ⟨field, -, rfl⟩
    exact closed.column 0 field.column

/-- The terms of the element become the columns of the scope that is closed. -/
theorem Hold.close (h : p.Hold ctx) :
    p.HoldIn { ctx.current with columns := ctx.shape.columns } := by
  have columns : ∀ column ∈ ctx.shape.columns, p.column column.term := by
    intro column hcolumn
    apply h.element
    cases hshape : ctx.shape with
    | members ms =>
        rw [hshape] at hcolumn
        rcases List.mem_map.1 hcolumn with ⟨m, hm, rfl⟩
        exact List.mem_map_of_mem hm
    | scalar term =>
        rw [hshape] at hcolumn
        cases List.mem_singleton.1 hcolumn
        exact List.mem_singleton.2 rfl
  exact { h.current with columns }

theorem Hold.wrapIf (closed : p.Closed) (h : p.Hold ctx) (condition : Bool) :
    p.Hold (ctx.wrapIf condition) := by
  cases condition with
  | false => exact h
  | true =>
      have element : ∀ τ ∈ (ctx.shape.through ctx.currentId).terms, p.column τ := by
        intro τ hτ
        cases hshape : ctx.shape with
        | members ms =>
            rw [hshape, Shape.through, Shape.terms, List.map_map] at hτ
            rcases List.mem_map.1 hτ with ⟨m, -, rfl⟩
            exact closed.column _ _
        | scalar term =>
            rw [hshape] at hτ
            cases List.mem_singleton.1 hτ
            exact closed.column _ _
      refine ⟨?_, holdIn_ofParent _, element⟩
      exact List.forall_mem_append.2 ⟨h.inner, List.forall_mem_singleton.2 h.close⟩

theorem HoldIn.addFilter {scope : Scope} {τ : Term} (closed : p.Closed) (h : p.HoldIn scope)
    (hτ : p.filter τ) : p.HoldIn (Compiler.addFilter scope τ) := by
  unfold Compiler.addFilter
  split
  · next existing hexisting =>
      have hboth : p.filter (.binary .and existing τ) :=
        closed.conjunction existing τ (h.filter existing hexisting) hτ
      exact { h with filter := by simpa using hboth }
  · exact { h with filter := by simpa using hτ }

theorem HoldIn.addOrder {scope : Scope} {terms : List Term} (kind : SortKind) (h : p.HoldIn scope)
    (hterms : ∀ τ ∈ terms, p.key τ) : p.HoldIn (Compiler.addOrder scope kind terms) := by
  -- A primary sort drops the items there are, a secondary one keeps them.
  have kept : ∀ item ∈ (if kind.secondary then scope.orderBy else []), p.key item.term := by
    split
    · exact h.keys
    · simp
  refine { h with keys := List.forall_mem_append.2 ⟨kept, ?_⟩ }
  intro item hitem
  rcases List.mem_map.1 hitem with ⟨τ, hτ, rfl⟩
  exact hterms τ hτ

/-- A link that keeps the properties extends a context that has them to one that has them. -/
theorem hold_of_extends {slots : List Slot} {path : Path} {link : Link} (closed : p.Closed)
    (kept : p.KeptBy slots link) (step : Extends slots path link below ctx) (h : p.Hold below) :
    p.Hold ctx := by
  cases step with
  | @filter param body wrapped τ op selector hwrapped predicate =>
      have hwrapped : p.Hold wrapped := hwrapped ▸ h.wrapIf closed _
      have hτ : p.filter τ := kept.filter op param body selector _ _ τ hwrapped.element predicate
      exact ⟨hwrapped.inner, hwrapped.current.addFilter closed hτ, hwrapped.element⟩
  | identity op selector element => exact h
  -- A projection is written into no scope yet.
  | @select param body shape op selector notElement projected =>
      refine ⟨h.inner, h.current, ?_⟩
      intro τ hτ
      rcases fromValue_of_projects projected hτ with ⟨value, hvalue, path', raw, hraw, rfl⟩
      rw [← Link.values_of_selector selector] at hvalue
      exact kept.column op value hvalue _ path' raw h.element hraw
  | @sort kind param body wrapped terms op selector allowed hwrapped keyed =>
      have hwrapped : p.Hold wrapped := hwrapped ▸ h.wrapIf closed _
      have hterms : ∀ τ ∈ terms, p.key τ := by
        intro τ hτ
        rcases fromValue_of_keyed keyed hτ with ⟨value, hvalue, path', raw, hraw, rfl⟩
        rw [← Link.values_of_selector selector] at hvalue
        exact kept.key ⟨kind, op⟩ value hvalue _ path' raw hwrapped.element hraw
      exact ⟨hwrapped.inner, hwrapped.current.addOrder kind hterms, hwrapped.element⟩
  | @take wrapped τ op hwrapped bound =>
      have hwrapped : p.Hold wrapped := hwrapped ▸ h.wrapIf closed _
      have hτ : p.bound τ := kept.bound (.inl op) _ _ τ hwrapped.element bound
      refine ⟨hwrapped.inner, ?_, hwrapped.element⟩
      exact { hwrapped.current with take := by simpa using hτ }
  | @skip wrapped τ op hwrapped bound =>
      have hwrapped : p.Hold wrapped := hwrapped ▸ h.wrapIf closed _
      have hτ : p.bound τ := kept.bound (.inr op) _ _ τ hwrapped.element bound
      refine ⟨hwrapped.inner, ?_, hwrapped.element⟩
      exact { hwrapped.current with skip := by simpa using hτ }

theorem hold_of_builds {schema : Schema} {slots : List Slot} {path : Path} {e : Expr}
    (closed : p.Closed) (kept : ∀ link ∈ links e, p.KeptBy slots link)
    (h : Builds schema slots path e ctx) : p.Hold ctx := by
  induction h with
  | table literal resolved => exact hold_ofSource closed _ _
  | @link path e link below ctx call source step ih =>
      rw [links_of_link call, List.forall_mem_cons] at kept
      exact hold_of_extends closed kept.1 step (ih kept.2)

end Steps

/-- If every link keeps the properties, the query that a template compiles to has them. -/
theorem holdIn_of_query {p : Places} {rules : List Rule} {schema : Schema} {t : Expr} {query : Query}
    (closed : p.Closed) (h : (⟨rules, schema, t⟩ : Compiler).query = .ok query)
    (kept : ∀ link ∈ links t, p.KeptBy query.slots link) : ∀ scope ∈ query.scopes, p.HoldIn scope := by
  rcases Compiler.query_ok.1 h with ⟨ctx, hctx, rfl⟩
  have root : t.resolve? (List.replicate 0 0) = some t := t.resolve?_nil
  have hold : p.Hold ctx := hold_of_builds closed kept (Compiler.builds_of_build 0 root hctx).2
  exact List.forall_mem_append.2 ⟨hold.inner, List.forall_mem_singleton.2 hold.close⟩

end Places

end Compile
end QueryPlan
