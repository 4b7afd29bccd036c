import QueryPlan.Proofs.Compile.Projections
import QueryPlan.Proofs.Compile.Refusals

/-!
# Outputs — the columns and the element type of a compiled query

What a query puts out is decided by the last projection of its chain: the outermost `Select` whose body
is not the element itself.  Filters, sorts and bounds around it have no say, and neither has the number
of scopes that they close.  A chain without such a projection puts out the elements of its table.

The columns of a projection are named by the members of its body, or by the one name of scalar results.
A constructed object has a column for each member that there is an argument for; if it names more members
than it has arguments, the last of them are missing.
-/

namespace QueryPlan

/-- The member that a binding initializes. -/
def Binding.member {α : Type} : Binding α → Member
  | assign m _ | nested m _ | elements m _ => m

namespace Compile

open Sql (Context Outline Query Shape Slot Term)

/-! ## The last projection -/

/-- The body of a projection to something else than the element itself. -/
def Link.projection? (link : Link) : Option Expr :=
  match link.operator, asSelector? link.argument with
  | .select, some (param, body) => if Compiler.isElement param body then none else some body
  | _, _ => none

/-- The body of the last projection of a chain to something else than the element itself. -/
def lastProjection? (e : Expr) : Option Expr :=
  (spine e).findSome? fun inner => (Link.ofExpr? inner).bind Link.projection?

/-- The table that a chain starts from. -/
def table? (e : Expr) : Option Table :=
  (spine e).findSome? fun inner =>
    match inner.node with
    | .constant (.table table) => some table
    | _ => none

section Chains

variable {e : Expr} {link : Link}

theorem lastProjection?_of_link (call : Link.ofExpr? e = some link) :
    lastProjection? e = link.projection?.or (lastProjection? link.source) := by
  rw [lastProjection?, spine_of_link call, List.findSome?_cons, call]
  cases h : link.projection? with
  | none => simp [h, lastProjection?]
  | some body => simp [h]

theorem table?_of_link (call : Link.ofExpr? e = some link) : table? e = table? link.source := by
  rw [table?, spine_of_link call]
  rcases Link.ofExpr?_eq_some.1 call with ⟨id, ty, m, rfl, -⟩
  rfl

theorem ofExpr?_of_literal {value : Value} (literal : e.node = .constant value) :
    Link.ofExpr? e = none := by
  rw [Link.ofExpr?, literal]

theorem lastProjection?_of_literal {value : Value} (literal : e.node = .constant value) :
    lastProjection? e = none := by
  have noCall := ofExpr?_of_literal literal
  rw [lastProjection?, spine_of_noLink noCall]
  simp [noCall]

theorem table?_of_literal {table : Table} (literal : e.node = .constant (.table table)) :
    table? e = some table := by
  rw [table?, spine_of_noLink (ofExpr?_of_literal literal)]
  simp [literal]

end Chains

/-! ## Names -/

/-- The names of the members that a projection gives to its elements. -/
def memberNames (body : Expr) : List String :=
  match body.node with
  | .construct construction => construction.members.map (·.name)
  | .memberInit _ bindings => bindings.map (·.member.name)
  | _ => [Shape.scalarName]

/-- Whether there is a value for each member that a projection names. -/
def valuesEveryMember (body : Expr) : Bool :=
  match body.node with
  | .construct construction => decide (construction.members.length ≤ construction.args.length)
  | _ => true

/-- The columns of a projection are named by its members, as far as there are values for them. -/
structure NamedBy (body : Expr) (names : List String) : Prop where
  every : valuesEveryMember body = true → names = memberNames body
  missing : valuesEveryMember body = false →
    names = (memberNames body).take body.children.length ∧ names.length < (memberNames body).length

end Compile

namespace Sql

/-- The names of the columns that select elements of an outline. -/
def Outline.columnNames : Outline → List String
  | scalar => [Shape.scalarName]
  | members names => names

theorem Shape.map_name_columns (shape : Shape) :
    shape.columns.map (·.name) = shape.outline.columnNames := by
  cases shape with
  | members ms => simp [columns, outline, Outline.columnNames]
  | scalar term => rfl

/-- Closing a scope keeps the type of the elements. -/
@[simp] theorem Context.element_wrapIf (ctx : Context) (condition : Bool) :
    (ctx.wrapIf condition).element = ctx.element := by
  cases condition <;> rfl

end Sql

namespace Compile

open Sql (Context Outline Query Shape Slot Term)

theorem map_fst_zip_eq_take {α β : Type} (names : List α) (values : List β) :
    (names.zip values).map (·.1) = names.take values.length := by
  rw [List.zip_eq_zip_take_min, List.map_fst_zip (by simp)]
  exact List.take_eq_take_iff.2 (by omega)

/-- The columns of a projection are those of the members that it has values for. -/
theorem namedBy_of_selectable {outline outline' : Outline} {param : Param} {body : Expr}
    (h : Selectable outline param.name body outline')
    (notElement : Compiler.isElement param body = false) : NamedBy body outline'.columnNames := by
  cases h with
  | element => simp [Compiler.isElement] at notElement
  | @construct id ty construction named values =>
      have names : (construction.members.zip construction.args).map (·.1.name) =
          (construction.members.map (·.name)).take construction.args.length := by
        rw [← List.map_take, ← map_fst_zip_eq_take, List.map_map]
        rfl
      rw [names]
      constructor
      case every =>
        intro enough
        have enough : construction.members.length ≤ construction.args.length := by
          simpa [valuesEveryMember] using enough
        exact List.take_of_length_le (by simpa using enough)
      case missing =>
        intro tooFew
        have tooFew : construction.args.length < construction.members.length := by
          simpa [valuesEveryMember] using tooFew
        refine ⟨rfl, ?_⟩
        simp only [Outline.columnNames, memberNames, List.length_take, List.length_map]
        omega
  | @memberInit id ty construction fields values =>
      refine ⟨fun _ => ?_, fun missing => by cases missing⟩
      simp [Outline.columnNames, memberNames, assignments, Binding.member]
  | value value =>
      -- What is converted as one value constructs nothing.
      cases value <;> exact ⟨fun _ => rfl, fun missing => by cases missing⟩

/-! ## Chains -/

/-- What a chain puts out: the elements of its last projection, or those of its table. -/
inductive PutsOut (e : Expr) (element : Ty) (names : List String) : Prop where
  | projection {body : Expr} (last : lastProjection? e = some body) (type : element = body.ty)
      (named : NamedBy body names)
  | table {table : Table} (noProjection : lastProjection? e = none) (start : table? e = some table)
      (type : element = table.element) (fields : names = table.model.fields.map (·.name))

/-- A link that projects to nothing else than the element keeps what its source puts out. -/
theorem PutsOut.of_source {e : Expr} {link : Link} {element : Ty} {names : List String}
    (call : Link.ofExpr? e = some link) (same : link.projection? = none)
    (h : PutsOut link.source element names) : PutsOut e element names := by
  have last : lastProjection? e = lastProjection? link.source := by
    rw [lastProjection?_of_link call, same, Option.none_or]
  cases h with
  | projection found type named => exact .projection (last.trans found) type named
  | table noProjection start type fields =>
      exact .table (last.trans noProjection) ((table?_of_link call).trans start) type fields

/-- Extending a context by a link changes what is put out only by a projection. -/
theorem putsOut_of_extends {e : Expr} {slots : List Slot} {path : Path} {link : Link}
    {below ctx : Context} (call : Link.ofExpr? e = some link)
    (h : PutsOut link.source below.element below.shape.outline.columnNames)
    (step : Extends slots path link below ctx) :
    PutsOut e ctx.element ctx.shape.outline.columnNames := by
  -- Filters, sorts and bounds may close the scope below, which keeps outline and element.
  have kept : ∀ condition, link.projection? = none →
      PutsOut e (below.wrapIf condition).element
        (below.wrapIf condition).shape.outline.columnNames := by
    intro condition same
    rw [Context.outline_wrapIf, Context.element_wrapIf]
    exact h.of_source call same
  cases step with
  | filter op selector closed predicate =>
      subst closed
      exact kept _ (by simp [Link.projection?, op])
  | sort op selector allowed closed keyed =>
      subst closed
      refine kept _ ?_
      cases hop : link.operator <;> simp_all [Link.projection?, SortKind.ofOperator?]
  | take op closed bound | skip op closed bound =>
      subst closed
      exact kept _ (by simp [Link.projection?, op])
  | identity op selector element =>
      exact h.of_source call (by simp [Link.projection?, op, selector, element])
  | @select param body shape op selector notElement projected =>
      have last : lastProjection? e = some body := by
        rw [lastProjection?_of_link call]
        simp [Link.projection?, op, selector, notElement]
      have selectable := selectable_of_projects rfl projected
      exact .projection last rfl (namedBy_of_selectable selectable notElement)

theorem putsOut_of_builds {schema : Schema} {slots : List Slot} {path : Path} {e : Expr}
    {ctx : Context} (h : Builds schema slots path e ctx) :
    PutsOut e ctx.element ctx.shape.outline.columnNames := by
  induction h with
  | @table path e table source literal resolved =>
      rw [outline_ofSource resolved]
      exact .table (lastProjection?_of_literal literal) (table?_of_literal literal) rfl rfl
  | link call _ step ih => exact putsOut_of_extends call ih step

/-- A compiled query yields elements of the type of the last projection's body, in columns named by its
members; if it constructs an object of more members than it has arguments, only the first ones have
columns.  Without a projection the query yields the elements and the fields of the table. -/
theorem output_of_last_projection (c : Compiler) {query : Query} (compiled : c.query = .ok query) :
    (∀ body, lastProjection? c.root = some body →
      query.element = body.ty ∧
        (valuesEveryMember body = true → query.columnNames = memberNames body) ∧
        (valuesEveryMember body = false →
          query.columnNames = (memberNames body).take body.children.length ∧
            query.columnNames.length < (memberNames body).length)) ∧
      (lastProjection? c.root = none →
        ∃ table, table? c.root = some table ∧ query.element = table.element ∧
          query.columnNames = table.model.fields.map (·.name)) := by
  obtain ⟨ctx, built, rfl⟩ := Compiler.query_ok.1 compiled
  have root : c.root.resolve? (List.replicate 0 0) = some c.root := c.root.resolve?_nil
  have out := putsOut_of_builds (Compiler.builds_of_build 0 root built).2
  have names : ctx.finish.columnNames = ctx.shape.outline.columnNames := ctx.shape.map_name_columns
  rw [← names] at out
  cases out with
  | @projection body last type named =>
      refine ⟨fun found hfound => ?_, fun noProjection => by simp [last] at noProjection⟩
      obtain rfl : body = found := Option.some.inj (last.symm.trans hfound)
      exact ⟨type, named.every, named.missing⟩
  | @table table noProjection start type fields =>
      refine ⟨fun body last => ?_, fun _ => ⟨table, start, type, fields⟩⟩
      simp [noProjection] at last

namespace Sample

/-- Labels of people, a page of them, one more page, and then each of them as it is. -/
def pagedLabels (label : Expr) : Expr :=
  let count : Expr := ⟨70, .int32, .constant (.int 5)⟩
  let page : Expr := ⟨71, .queryable label.ty, .call Operator.take.method none [projected label, count]⟩
  let rest : Expr := ⟨72, .queryable label.ty, .call Operator.skip.method none [page, count]⟩
  let x : Expr := ⟨73, label.ty, .parameter "x"⟩
  let itself : Expr := ⟨74, label.ty, .lambda [⟨"x", label.ty⟩] x⟩
  ⟨75, .queryable label.ty, .call Operator.select.method none [rest, itself]⟩

/-- A label of two members and one argument. -/
def halfLabel : Expr :=
  ⟨76, .named "Label", .construct ⟨⟨.named "Label", 1⟩, [nameOf],
    [⟨.named "Label", "text", .text⟩, ⟨.named "Label", "years", .int64⟩]⟩⟩

end Sample

/-- The labels keep their columns through two scopes and a projection to themselves. -/
theorem pagedLabels_output :
    ∃ query, (⟨Rule.all, Sample.schema, Sample.pagedLabels Sample.namedLabel⟩ : Compiler).query =
        .ok query ∧
      query.depth = 1 ∧ query.element = .named "Label" ∧ query.columnNames = ["text", "years"] := by
  obtain ⟨query, compiled, depth⟩ :
      ∃ query, (⟨Rule.all, Sample.schema, Sample.pagedLabels Sample.namedLabel⟩ : Compiler).query =
        .ok query ∧ query.depth = 1 :=
    Compiler.exists_query_of_view (by decide +kernel)
  have last : lastProjection? (Sample.pagedLabels Sample.namedLabel) = some Sample.namedLabel := by rfl
  obtain ⟨element, every, -⟩ := (output_of_last_projection _ compiled).1 _ last
  exact ⟨query, compiled, depth, element, every rfl⟩

/-- A member that has no argument has no column. -/
theorem halfLabel_misses_member :
    ¬ ∀ (c : Compiler) (query : Query) (body : Expr), c.query = .ok query →
      lastProjection? c.root = some body → query.columnNames = memberNames body := by
  intro claimed
  obtain ⟨query, compiled, names⟩ :
      ∃ query, (Sample.projecting Sample.halfLabel).query = .ok query ∧
        query.columnNames = ["text"] :=
    Compiler.exists_query_of_view (by decide +kernel)
  have same := claimed (Sample.projecting Sample.halfLabel) query Sample.halfLabel compiled rfl
  rw [names] at same
  cases same

end Compile
end QueryPlan
