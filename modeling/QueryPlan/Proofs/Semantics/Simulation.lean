import Mathlib
import QueryPlan.Plan
import QueryPlan.Proofs.Semantics.Order
import QueryPlan.Proofs.Semantics.View

/-!
# Simulation — a compiled query yields the elements of its chain

Every step of a successful compilation takes a context with a view to a context with a view, and the
sequence of the new view is the operator applied to the sequence of the old one.  By induction on the
chain the finished query has a view whose sequence is the one that the chain yields, and selecting the
element shape from it gives the elements as rows.

Names have to tell fields apart, because a scope reads the output of its parent by name, and a
selector has to say all that it makes of an element (`DistinctNames`).

Where the order of values is total and transitive, a compiled chain yields what its last operator makes,
in order, of the elements of the chain below it (`plan_yields_last_operator`): the operators are then
known by what `Sequence.Acts` says of them, whatever keys a sequence carries along.
-/

namespace QueryPlan
namespace Semantics

open Compile (Builds Compiler Converts Extends Keyed Link Projects asSelector? bodyPath)
open Sql (Context Slot Term)

/-! ## Steps -/

section Steps

variable {V : Type} {I : Interpretation V} {db : Database V} {t : Expr} {slots : List Slot}
  {params : List Value} {view : View V} {ctx : Context} {path : Path} {argument : Expr}

theorem filter_of_converts {param : Param} {body : Expr} {τ : Term}
    (h : view.Describes I db (params.map I.literal) ctx) (notPaged : view.isPaged = false)
    (position : t.resolve? path = some argument) (binds : slots.mapM (·.bind t) = .ok params)
    (selector : asSelector? argument = some (param, body))
    (predicate : Converts slots ⟨ctx.shape, some param.name, .filter⟩ (bodyPath argument path) body τ)
    (slots' : List Slot) :
    ∃ view' : View V,
      view'.Describes I db (params.map I.literal)
        { ctx with current := Compiler.addFilter ctx.current τ, slots := slots' } ∧
      (view.sequence I).operate? I .filter argument = some (view'.sequence I) := by
  -- On each row the predicate and the lambda body agree, since the row represents the element.
  let test : Element V → Option Bool := fun element => do
    return I.truth (← evaluate? I (some (param.name, element)) body)
  have agree : ∀ row ∈ view.rows, ∃ x,
      value? I ⟨params.map I.literal, view.source, row⟩ τ = some x ∧
        test (view.element row) = some (I.truth x) := by
    intro row hrow
    obtain ⟨x, hx, hevaluate⟩ := evaluate_of_converts predicate
      (Compile.resolve?_selectorBody position selector) binds rfl (.some (h.element row hrow))
    exact ⟨x, hx, by simp [test, hevaluate]⟩
  refine ⟨_, filter_describes h test agree slots', ?_⟩
  simp only [Sequence.operate?, function_of_selector selector]
  apply sequence_filter test notPaged
  intro row hrow
  rcases agree row hrow with ⟨x, -, htest⟩
  exact Option.isSome_iff_exists.2 ⟨_, htest⟩

/-- The element itself makes the element. -/
theorem select_of_isElement {param : Param} {body : Expr}
    (selector : asSelector? argument = some (param, body))
    (element : Compiler.isElement param body = true) (s : Sequence V) :
    s.operate? I .select argument = some s := by
  rcases body with ⟨id, ty, node⟩
  cases node with
  | parameter name =>
      have hname : param.name = name := (beq_iff_eq.1 element).symm
      have hself : s.arrived.mapM (fun a => do
          return (← project? I param.name a.1 ⟨id, ty, .parameter name⟩, a.2)) = some s.arrived := by
        refine (mapM_eq_some (g := fun a => a) fun a _ => ?_).trans (by rw [List.map_id'])
        simp [project?, hname]
      simp only [Sequence.operate?, function_of_selector selector, Option.bind_eq_bind,
        Option.bind_some]
      rw [Sequence.map?, hself]
      rfl
  | _ => simp [Compiler.isElement] at element

theorem select_of_projects {param : Param} {body : Expr} {shape : Sql.Shape}
    (h : view.Describes I db (params.map I.literal) ctx)
    (position : t.resolve? path = some argument) (binds : slots.mapM (·.bind t) = .ok params)
    (selector : asSelector? argument = some (param, body))
    (notElement : Compiler.isElement param body = false) (plain : PlainSelector body)
    (projected : Projects slots ⟨ctx.shape, some param.name, .select⟩ (bodyPath argument path) body
      shape) (element : Ty) (slots' : List Slot) :
    ∃ view' : View V,
      view'.Describes I db (params.map I.literal) { ctx with shape, element, slots := slots' } ∧
      (view.sequence I).operate? I .select argument = some (view'.sequence I) := by
  have agree : ∀ row ∈ view.rows, ∃ element,
      element? I ⟨params.map I.literal, view.source, row⟩ shape = some element ∧
        project? I param.name (view.element row) body = some element := fun row hrow =>
    project_of_projects projected notElement plain (Compile.resolve?_selectorBody position selector)
      binds rfl (h.element row hrow)
  refine ⟨_, map_describes h (project? I param.name · body) agree
    (distinctColumns_of_projects projected plain) element slots', ?_⟩
  simp only [Sequence.operate?, function_of_selector selector]
  apply sequence_map (project? I param.name · body)
  intro row hrow
  rcases agree row hrow with ⟨element, -, hproject⟩
  exact Option.isSome_iff_exists.2 ⟨element, hproject⟩

theorem apply_of_sortKind {kind : SortKind} {operator : Operator} {param : Param} {body : Expr}
    (op : SortKind.ofOperator? operator = some kind)
    (selector : asSelector? argument = some (param, body)) (s : Sequence V) :
    s.operate? I operator argument =
      s.sort? kind.secondary kind.descending fun element => keyOf? I param.name element body := by
  have sorts : s.sortBy? I kind.secondary kind.descending argument =
      s.sort? kind.secondary kind.descending fun element => keyOf? I param.name element body := by
    rw [Sequence.sortBy?, function_of_selector selector]
    rfl
  cases operator <;> cases op <;> exact sorts

theorem sort_of_keyed {kind : SortKind} {operator : Operator} {param : Param} {body : Expr}
    {terms : List Term} (h : view.Describes I db (params.map I.literal) ctx)
    (notPaged : view.isPaged = false) (op : SortKind.ofOperator? operator = some kind)
    (position : t.resolve? path = some argument) (binds : slots.mapM (·.bind t) = .ok params)
    (selector : asSelector? argument = some (param, body))
    (allowed : Compiler.isExplicitConstruction body = false)
    (keyed : Keyed slots ⟨ctx.shape, some param.name, .orderBy⟩ (bodyPath argument path) body terms)
    (slots' : List Slot) :
    ∃ view' : View V,
      view'.Describes I db (params.map I.literal)
        { ctx with current := Compiler.addOrder ctx.current kind terms, slots := slots' } ∧
      (view.sequence I).operate? I operator argument = some (view'.sequence I) := by
  have agree : ∀ row ∈ view.rows, ∃ xs,
      terms.mapM (value? I ⟨params.map I.literal, view.source, row⟩) = some xs ∧
        keyOf? I param.name (view.element row) body = some xs := fun row hrow =>
    keyOf_of_keyed keyed allowed (Compile.resolve?_selectorBody position selector) binds rfl
      (h.element row hrow)
  refine ⟨_, sort_describes h (keyOf? I param.name · body) agree slots', ?_⟩
  rw [apply_of_sortKind op selector]
  apply sequence_sort kind (keyOf? I param.name · body) notPaged
  intro row hrow
  rcases agree row hrow with ⟨xs, -, hkey⟩
  exact Option.isSome_iff_exists.2 ⟨xs, hkey⟩

theorem take_of_converts {τ : Term} (h : view.Describes I db (params.map I.literal) ctx)
    (notLimited : view.take = none) (position : t.resolve? path = some argument)
    (binds : slots.mapM (·.bind t) = .ok params)
    (bound : Converts slots ⟨ctx.shape, none, .take⟩ path argument τ) (slots' : List Slot) :
    ∃ view' : View V,
      view'.Describes I db (params.map I.literal)
        { ctx with current := { ctx.current with take := some τ }, slots := slots' } ∧
      (view.sequence I).operate? I .take argument = some (view'.sequence I) := by
  obtain ⟨x, hx, hevaluate⟩ := evaluate_of_converts (v := ⟨params.map I.literal, 0, fun _ => none⟩)
    bound position binds rfl .none
  refine ⟨_, take_describes h hx slots', ?_⟩
  rw [sequence_take notLimited]
  simp [Sequence.operate?, hevaluate]

theorem skip_of_converts {τ : Term} (h : view.Describes I db (params.map I.literal) ctx)
    (notPaged : view.isPaged = false) (position : t.resolve? path = some argument)
    (binds : slots.mapM (·.bind t) = .ok params)
    (bound : Converts slots ⟨ctx.shape, none, .skip⟩ path argument τ) (slots' : List Slot) :
    ∃ view' : View V,
      view'.Describes I db (params.map I.literal)
        { ctx with current := { ctx.current with skip := some τ }, slots := slots' } ∧
      (view.sequence I).operate? I .skip argument = some (view'.sequence I) := by
  obtain ⟨x, hx, hevaluate⟩ := evaluate_of_converts (v := ⟨params.map I.literal, 0, fun _ => none⟩)
    bound position binds rfl .none
  refine ⟨_, skip_describes h hx slots', ?_⟩
  rw [sequence_skip notPaged]
  simp [Sequence.operate?, hevaluate]

/-- A step of the compiler does to a view what the link's operator does to its sequence. -/
theorem apply_of_extends {link : Link} {below : Context}
    (h : Extends slots path link below ctx) (position : t.resolve? path = some link.argument)
    (binds : slots.mapM (·.bind t) = .ok params)
    (plain : link.operator = .select → ∀ param body,
      function? link.argument = some (param, body) → PlainSelector body)
    (hbelow : view.Describes I db (params.map I.literal) below) :
    ∃ view' : View V, view'.Describes I db (params.map I.literal) ctx ∧
      (view.sequence I).operate? I link.operator link.argument = some (view'.sequence I) := by
  cases h with
  | filter op selector closed predicate =>
      subst closed
      -- A filter on a paged scope would drop rows before they are counted.
      rcases close_paged hbelow with ⟨inner, hinner, hsequence, notPaged⟩
      rw [op, ← hsequence]
      exact filter_of_converts hinner notPaged position binds selector predicate _
  -- The context is left alone, and so is the sequence.
  | identity op selector element =>
      refine ⟨view, hbelow, ?_⟩
      rw [op]
      exact select_of_isElement selector element _
  -- A projection may stay on a paged scope: it changes neither the rows nor their order.
  | select op selector notElement projected =>
      rw [op]
      exact select_of_projects hbelow position binds selector notElement
        (plain op _ _ (function_of_selector selector)) projected _ _
  | sort op selector allowed closed keyed =>
      subst closed
      rcases close_paged hbelow with ⟨inner, hinner, hsequence, notPaged⟩
      rw [← hsequence]
      exact sort_of_keyed hinner notPaged op position binds selector allowed keyed _
  | take op closed bound =>
      subst closed
      -- A limit may follow an offset on the same scope, in the order in which both apply.
      rcases close_limited hbelow with ⟨inner, hinner, hsequence, notLimited⟩
      rw [op, ← hsequence]
      exact take_of_converts hinner notLimited position binds bound _
  | skip op closed bound =>
      subst closed
      rcases close_paged hbelow with ⟨inner, hinner, hsequence, notPaged⟩
      rw [op, ← hsequence]
      exact skip_of_converts hinner notPaged position binds bound _

end Steps

/-! ## Chains -/

section Chains

variable {V : Type} {I : Interpretation V} {schema : Schema} {db : Database V} {t e : Expr}
  {slots : List Slot} {params : List Value} {ctx : Context} {path : Path}

/-- The view of a scope that reads a table. -/
def View.ofSource (db : Database V) (source : TableSource) : View V where
  source := 0
  rows := (db source).map fun row column => some (row column)
  element := fun row => .record (source.model.fields.filterMap fun f =>
    (row f.column).map fun x => (f.name, x))
  keep := fun _ => true
  key := fun _ => []
  skip := none
  take := none

/-- Rows of a table have every field. -/
theorem element_ofSource (source : TableSource) (values : String → V) :
    (View.ofSource db source).element (fun column => some (values column)) =
      .record (source.model.fields.map fun f => (f.name, values f.column)) := by
  simp [View.ofSource]

theorem ofSource_describes (source : TableSource) (element : Ty) (params : List V)
    (distinct : (source.model.fields.map (·.name)).Nodup) :
    (View.ofSource db source).Describes I db params (.ofSource source element) := by
  refine ⟨⟨[], rfl, rfl, rfl⟩, ?_, fun _ _ => rfl, fun _ _ => rfl, rfl, rfl, ?_⟩
  · intro row hrow
    rcases List.mem_map.1 hrow with ⟨values, -, rfl⟩
    have hfields : (source.model.fields.map fun f => (f.name, Term.column 0 f.column)).mapM
        (fun m => do
          return (m.1, ← value? I ⟨params, 0, fun column => some (values column)⟩ m.2)) =
        some (source.model.fields.map fun f => (f.name, values f.column)) := by
      rw [List.mapM_map]
      exact mapM_eq_some fun _ _ => rfl
    rw [element_ofSource, Context.ofSource, element?, View.ofSource, hfields]
    rfl
  · rw [DistinctColumns, Context.ofSource, Sql.Shape.columns, List.map_map, List.map_map]
    exact distinct

theorem sequence_ofSource (source : TableSource) :
    (View.ofSource db source).sequence I = .ofElements (tableElements source (db source)) := by
  have hrows : (View.ofSource db source).rows.filter (View.ofSource db source).keep =
      (db source).map fun row column => some (row column) :=
    List.filter_eq_self.2 fun _ _ => rfl
  rw [sequence_of_not_paged rfl, hrows, Sequence.ofElements, tableElements, List.map_map,
    List.map_map]
  refine congrArg Sequence.mk (List.map_congr_left fun row _ => ?_)
  simp only [Function.comp_apply, element_ofSource]
  rfl

/-- A chain builds a context whose view has the sequence that the chain yields. -/
theorem sequence_of_builds (h : Builds schema slots path e ctx)
    (position : t.resolve? path = some e) (binds : slots.mapM (·.bind t) = .ok params)
    (distinct : DistinctNames e) :
    ∃ view : View V, view.Describes I db (params.map I.literal) ctx ∧
      sequence? I schema db e = some (view.sequence I) := by
  induction h with
  | @table path e table source literal resolved =>
      rcases e with ⟨id, ty, node⟩
      cases literal
      -- The innermost scope reads the columns of the table under the names of the fields.
      rw [DistinctNames, ← Compile.model_of_tableSource resolved] at distinct
      refine ⟨.ofSource db source, ofSource_describes source _ _ distinct, ?_⟩
      rw [sequence?, resolved, sequence_ofSource]
      rfl
  | @link path e link below ctx call _ step ih =>
      rcases Link.ofExpr?_eq_some.1 call with ⟨id, ty, m, rfl, operator⟩
      rw [← operator?_eq_ofMethod?] at operator
      rw [DistinctNames, operator] at distinct
      rcases ih (Link.resolve?_source call position) distinct.1 with ⟨view, hview, hsequence⟩
      obtain ⟨view', hview', happly⟩ := apply_of_extends step (Link.resolve?_argument call position)
        binds (fun op => distinct.2 (congrArg some op)) hview
      refine ⟨view', hview', ?_⟩
      rw [sequence?, operator, hsequence]
      exact happly

end Chains

section Plans

variable {V : Type} (I : Interpretation V) (db : Database V) (schema : Schema)
  {rules : List Compile.Rule} {serial : Nat} {t : Expr} {plan : Plan} {params : List Value}

/-- Evaluating the query of a compiled chain gives the elements of the sequence that the chain yields. -/
theorem plan_yields_sequence (compiled : Plan.compile serial rules schema t = .ok plan)
    (binds : plan.bind t = .ok params) (distinct : DistinctNames t) :
    ∃ s, sequence? I schema db t = some s ∧
      run? I db (params.map I.literal) plan.query = some ((s.elements I).map Element.output) := by
  rcases Compile.bind_ok.1 compiled with ⟨query, hquery, hpure⟩
  cases hpure
  rcases Compiler.query_ok.1 hquery with ⟨ctx, hctx, rfl⟩
  rcases Compiler.builds_of_build 0 t.resolve?_nil hctx with ⟨-, hbuilds⟩
  rcases sequence_of_builds hbuilds t.resolve?_nil binds distinct with ⟨view, hview, hsequence⟩
  -- Sealing the query selects the element shape from the outermost scope.
  rcases output_of_describes hview rfl with ⟨outputs, houtputs, -, houtput⟩
  refine ⟨view.sequence I, hsequence, ?_⟩
  rw [run?, Sql.Context.finish, houtputs]
  exact houtput

/-- A compiled chain whose parameters bind yields the elements of the chain: evaluating the query scope
by scope on the contents of the table gives, in order and as rows, the elements that the operators of
the chain give when they are applied one at a time from the table outwards. -/
theorem plan_yields_elements (compiled : Plan.compile serial rules schema t = .ok plan)
    (binds : plan.bind t = .ok params) (distinct : DistinctNames t) :
    ∃ elements, elements? I schema db t = some elements ∧
      run? I db (params.map I.literal) plan.query = some (elements.map Element.output) := by
  rcases plan_yields_sequence I db schema compiled binds distinct with ⟨s, hsequence, hrun⟩
  exact ⟨s.elements I, by rw [elements?, hsequence]; rfl, hrun⟩

/-- Under a total and transitive order, a compiled chain yields what its last operator makes, in order, of
the elements of the chain below it. -/
theorem plan_yields_last_operator (ordered : I.Ordered) {id : Nat} {ty : Ty} {m : Method}
    {source argument : Expr}
    (compiled : Plan.compile serial rules schema ⟨id, ty, .call m none [source, argument]⟩ = .ok plan)
    (binds : plan.bind ⟨id, ty, .call m none [source, argument]⟩ = .ok params)
    (distinct : DistinctNames ⟨id, ty, .call m none [source, argument]⟩) :
    ∃ operator s s', operator? m = some operator ∧ sequence? I schema db source = some s ∧
      Sequence.Acts I argument s s' operator ∧
      run? I db (params.map I.literal) plan.query = some ((s'.elements I).map Element.output) := by
  rcases plan_yields_sequence I db schema compiled binds distinct with ⟨s', hsequence, hrun⟩
  rcases acts_of_sequence? ordered hsequence with ⟨operator, s, hoperator, hs, acts⟩
  exact ⟨operator, s, s', hoperator, hs, acts, hrun⟩

end Plans

/-! ## The eldest people -/

namespace Sample

open Compile.Sample (element person schema)

/-- A truth value as a predicate gives it. -/
def flag (b : Bool) : Value :=
  .int (if b then 1 else 0)

theorem flag_cases (b : Bool) : flag b = .int 1 ∨ flag b = .int 0 := by
  cases b <;> simp [flag]

/-- Whether a value counts as true. -/
def truth (v : Value) : Bool :=
  v == .int 1 || v == .bool true

/-- Numbers and texts are ordered among themselves, after nulls. -/
def le : Value → Value → Bool
  | .null, _ => true
  | .long a, .long b => decide (a ≤ b)
  | .text a, .text b => decide (a ≤ b)
  | _, _ => false

/-- Operators that compute numbers. -/
def arithmetic? : Sql.BinaryOp → Option (Int64 → Int64 → Int64)
  | .add => some (· + ·)
  | .subtract => some (· - ·)
  | .multiply => some (· * ·)
  | .divide => some (· / ·)
  | .modulo => some (· % ·)
  | .bitAnd => some (· &&& ·)
  | .bitOr => some (· ||| ·)
  | .bitXor => some (· ^^^ ·)
  | _ => none

/-- The value of an operator; equality treats nulls as ordinary values. -/
def binary (op : Sql.BinaryOp) (a b : Value) : Value :=
  match op with
  | .and => flag (truth a && truth b)
  | .or => flag (truth a || truth b)
  | .equal | .notDistinctFrom => flag (a == b)
  | .notEqual | .distinctFrom => flag (a != b)
  | .lessThan => flag (!le b a)
  | .lessThanOrEqual => flag (le a b)
  | .greaterThan => flag (!le a b)
  | .greaterThanOrEqual => flag (le b a)
  | .coalesce => if a = .null then b else a
  | _ =>
      match arithmetic? op, a, b with
      | some compute, .long x, .long y => .long (compute x y)
      | _, _, _ => .null

/-- Values stand for themselves. -/
def interpretation : Interpretation Value where
  literal v := v
  binary := binary
  not v := flag (!truth v)
  negate v :=
    match v with
    | .long x => .long (-x)
    | _ => .null
  isNull v negated := flag ((v == .null) != negated)
  truth := truth
  le := le
  count v :=
    match v with
    | .int n => n.toInt.toNat
    | .long n => n.toInt.toNat
    | _ => 0
  truth_one := by decide
  truth_zero := by decide
  binary_flag := by
    intro op a b predicate
    cases op <;> first | exact flag_cases _ | cases predicate
  not_flag _ := flag_cases _
  isNull_flag _ _ := flag_cases _
  truth_and a b := by
    show truth (flag (truth a && truth b)) = (truth a && truth b)
    cases truth a && truth b <;> decide
  equal_eq _ _ := rfl
  notEqual_eq _ _ := rfl
  isNull_right a := by simp [binary]
  isNull_left a := by simp [binary, BEq.comm]
  isNotNull_right a := by simp [binary, bne]
  isNotNull_left a := by simp [binary, bne, BEq.comm]

/-- Four people, two of the same age. -/
def people : Database Value := fun _ =>
  [(36, "Ada"), (41, "Grace"), (52, "Alan"), (41, "Ada")].map fun p column =>
    if column = "age" then .long p.1 else if column = "name" then .text p.2 else .null

/-- The ages of namesakes among the eldest people, those of one age in the order of their names. -/
def eldest (count : Int32) (env : Env Value) : Expr :=
  let all : Expr := ⟨0, .table element, .constant (.table ⟨person, element⟩)⟩
  let x : Expr := ⟨1, element, .parameter "x"⟩
  let ageOf : Expr := ⟨2, .int64, .member ⟨element, "age", .int64⟩ (some x)⟩
  let nameOf : Expr := ⟨3, .text, .member ⟨element, "name", .text⟩ (some x)⟩
  let captured : Expr := ⟨4, .environment, .constant (.closure env)⟩
  let name : Expr := ⟨5, .text, .member ⟨.environment, "name", .text⟩ (some captured)⟩
  let limit : Expr := ⟨6, .int32, .constant (.int count)⟩
  let byAge : Expr := ⟨7, .int64, .lambda [⟨"x", element⟩] ageOf⟩
  let same : Expr := ⟨8, .bool, .binary .equal none nameOf name none⟩
  let named : Expr := ⟨9, .bool, .lambda [⟨"x", element⟩] same⟩
  let byName : Expr := ⟨10, .text, .lambda [⟨"x", element⟩] nameOf⟩
  let aged : Expr :=
    ⟨11, .queryable element, .call Operator.orderByDescending.method none [all, byAge]⟩
  let sorted : Expr := ⟨12, .queryable element, .call Operator.thenBy.method none [aged, byName]⟩
  let limited : Expr := ⟨13, .queryable element, .call Operator.take.method none [sorted, limit]⟩
  let filtered : Expr :=
    ⟨14, .queryable element, .call Operator.filter.method none [limited, named]⟩
  ⟨15, .queryable .int64, .call Operator.select.method none [filtered, byAge]⟩

end Sample

section Yielded

open Sample Compile.Sample

/-- The two eldest people are Alan and one of two of the same age: Ada, whose name comes first although
she arrived last.  The younger namesake is not among them. -/
theorem eldest_yielded :
    let t := eldest 2 (.ofList 0 [("name", .text "Ada")])
    ∃ plan params, Plan.compile 0 Compile.Rule.all schema t = .ok plan ∧
      plan.bind t = .ok params ∧ DistinctNames t ∧
      run? interpretation people (params.map interpretation.literal) plan.query =
        some [[("value", .long 41)]] := by
  intro t
  have distinct : DistinctNames t := by
    refine ⟨⟨⟨⟨⟨by simp [DistinctNames, person], ?_⟩, ?_⟩, ?_⟩, ?_⟩, ?_⟩
    · exact fun op => absurd op (by decide)
    · exact fun op => absurd op (by decide)
    · exact fun op => absurd op (by decide)
    · exact fun op => absurd op (by decide)
    · intro _ param body selector
      cases selector
      trivial
  have yielded : elements? interpretation schema people t = some [.scalar (.long 41)] := by cbv
  have ready : ((Plan.compile 0 Compile.Rule.all schema t).toOption.any fun plan =>
      (plan.bind t).isOk) = true := by
    decide +kernel
  cases hplan : Plan.compile 0 Compile.Rule.all schema t with
  | error e => simp [hplan, Except.toOption] at ready
  | ok plan =>
      cases hbinds : plan.bind t with
      | error e => simp [hplan, hbinds, Except.toOption, Except.isOk, Except.toBool] at ready
      | ok params =>
          obtain ⟨elements, helements, hrun⟩ :=
            plan_yields_elements interpretation people schema hplan hbinds distinct
          cases yielded.symm.trans helements
          exact ⟨plan, params, rfl, hbinds, distinct, hrun⟩

end Yielded

end Semantics
end QueryPlan
