import QueryPlan.Proofs.Compile.Acceptance

/-!
# Refusals — which error a template is refused with

A link is refused for one of two reasons.  Its own form may be wrong, which is seen without the links
below it (`refusal?`); or its argument cannot be converted, which depends on the context that the links
below it build (`ConversionFails`).  Forms are checked on the way down the chain and arguments are
converted on the way up.  A template is therefore refused for the form of its outermost malformed link,
and only if there is none for the innermost argument that cannot be converted.

The lambda of a filter is looked at after its source, so its form counts as part of its conversion.
The same holds of a sort key, as far as it is no lambda of one parameter.
-/

namespace QueryPlan
namespace Compile

open Sql (Context Shape Slot Term)

/-! ## Forms -/

/-- What a template applies its operators to, outermost link first and the table last. -/
def spine (e : Expr) : List Expr :=
  match e with
  | ⟨id, ty, .call m none [source, argument]⟩ =>
      match Operator.ofMethod? m with
      | some _ => ⟨id, ty, .call m none [source, argument]⟩ :: spine source
      | none => [⟨id, ty, .call m none [source, argument]⟩]
  | e => [e]
termination_by structural e

theorem spine_of_link {e : Expr} {link : Link} (call : Link.ofExpr? e = some link) :
    spine e = e :: spine link.source := by
  rcases Link.ofExpr?_eq_some.1 call with ⟨id, ty, m, rfl, hm⟩
  rw [spine, hm]

theorem spine_of_noLink {e : Expr} (noCall : Link.ofExpr? e = none) : spine e = [e] := by
  unfold spine
  split
  · next id ty m source argument =>
      have hm : Operator.ofMethod? m = none := by simpa [Link.ofExpr?] using noCall
      rw [hm]
  · rfl

/-- A sort key that constructs an entity explicitly: it initializes an entity that is constructed from
arguments, or initializes no member of it, or one by other means than an assignment. -/
inductive ConstructsExplicitly : Expr → Prop where
  | arguments {id : Nat} {ty : Ty} {construction : Construction Expr} {bindings : List (Binding Expr)}
      (passed : construction.args ≠ []) :
      ConstructsExplicitly ⟨id, ty, .memberInit construction bindings⟩
  | noBinding {id : Nat} {ty : Ty} {construction : Construction Expr} :
      ConstructsExplicitly ⟨id, ty, .memberInit construction []⟩
  | otherBinding {id : Nat} {ty : Ty} {construction : Construction Expr}
      {bindings : List (Binding Expr)} {binding : Binding Expr} (mem : binding ∈ bindings)
      (other : ∀ m value, binding ≠ .assign m value) :
      ConstructsExplicitly ⟨id, ty, .memberInit construction bindings⟩

theorem isAssign_eq_false_iff {binding : Binding Expr} :
    binding.isAssign = false ↔ ∀ m value, binding ≠ .assign m value := by
  cases binding <;> simp [Binding.isAssign]

/-- The compiler refuses the keys that construct an entity explicitly. -/
theorem constructsExplicitly_iff {body : Expr} :
    ConstructsExplicitly body ↔ Compiler.isExplicitConstruction body = true := by
  constructor
  · intro h
    cases h with
    | arguments passed => simp [Compiler.isExplicitConstruction, passed]
    | noBinding => simp [Compiler.isExplicitConstruction]
    | @otherBinding id ty construction bindings binding mem other =>
        have found : bindings.any (!·.isAssign) = true :=
          List.any_eq_true.2 ⟨binding, mem, by simp [isAssign_eq_false_iff.2 other]⟩
        simp only [Compiler.isExplicitConstruction, found, Bool.or_true]
  · intro h
    rcases body with ⟨id, ty, node⟩
    cases node with
    | memberInit construction bindings =>
        simp only [Compiler.isExplicitConstruction, Bool.or_eq_true, Bool.not_eq_true',
          List.any_eq_true, List.isEmpty_eq_false_iff, List.isEmpty_iff] at h
        rcases h with (passed | rfl) | ⟨binding, mem, other⟩
        · exact .arguments passed
        · exact .noBinding
        · exact .otherBinding mem (isAssign_eq_false_iff.1 other)
    | _ => cases h

instance (body : Expr) : Decidable (ConstructsExplicitly body) :=
  decidable_of_iff _ constructsExplicitly_iff.symm

/-- The error of an operator call that is refused for its own form: the key of a sort must not construct
an entity explicitly, and a projection needs a lambda of one parameter. -/
def Link.refusal? (link : Link) : Option CompileError :=
  match link.operator with
  | .filter | .take | .skip => none
  | .select =>
      if (asSelector? link.argument).isNone then
        some (.unsupportedExpression link.argument.unquoted.kind .select)
      else
        none
  | .orderBy | .orderByDescending | .thenBy | .thenByDescending =>
      match link.argument.asLambda? with
      | some (_, body) =>
          if ConstructsExplicitly body then
            some (.explicitConstruction body.ty link.operator.methodName)
          else
            none
      | none => none

/-- The error of a link that is refused for its own form; a chain ends with a table that the schema
resolves. -/
def refusal? (schema : Schema) (e : Expr) : Option CompileError :=
  match Link.ofExpr? e with
  | some link => link.refusal?
  | none =>
      match e.node with
      | .constant (.table table) =>
          if (schema.tableSource? table.model).isNone then
            some (.unmappedSource table.model.path)
          else
            none
      | _ => some (.unacceptedLink (Link.describe e))

theorem refusal?_of_link {schema : Schema} {e : Expr} {link : Link}
    (call : Link.ofExpr? e = some link) : refusal? schema e = link.refusal? := by
  rw [refusal?, call]

/-! ## Conversions -/

/-- The argument of a link, which stands at the given path, cannot be converted in a context. -/
inductive ConversionFails (path : Path) (link : Link) (below : Context) :
    CompileError → Prop where
  | noPredicate (op : link.operator = .filter) (noSelector : asSelector? link.argument = none) :
      ConversionFails path link below (.unsupportedExpression link.argument.kind .filter)
  | predicate {param : Param} {body : Expr} {ctx : Context} {error : CompileError}
      (op : link.operator = .filter) (selector : asSelector? link.argument = some (param, body))
      (closed : ctx = below.wrapIf below.current.isPaged)
      (fails : (convert ⟨ctx.shape, some param.name, .filter⟩ (bodyPath link.argument path)
        body).run ctx.slots = .error error) :
      ConversionFails path link below error
  | projection {param : Param} {body : Expr} {error : CompileError}
      (op : link.operator = .select) (selector : asSelector? link.argument = some (param, body))
      (notElement : Compiler.isElement param body = false)
      (fails : (Compiler.projection ⟨below.shape, some param.name, .select⟩
        (bodyPath link.argument path) body).run below.slots = .error error) :
      ConversionFails path link below error
  | noKey {kind : SortKind} (op : SortKind.ofOperator? link.operator = some kind)
      (noSelector : asSelector? link.argument = none) :
      ConversionFails path link below (.unsupportedExpression link.argument.kind .orderBy)
  | key {kind : SortKind} {param : Param} {body : Expr} {ctx : Context} {error : CompileError}
      (op : SortKind.ofOperator? link.operator = some kind)
      (selector : asSelector? link.argument = some (param, body))
      (closed : ctx = below.wrapIf below.current.isPaged)
      (fails : (Compiler.keys ⟨ctx.shape, some param.name, .orderBy⟩ (bodyPath link.argument path)
        body).run ctx.slots = .error error) :
      ConversionFails path link below error
  | take {ctx : Context} {error : CompileError} (op : link.operator = .take)
      (closed : ctx = below.wrapIf below.current.take.isSome)
      (fails : (convert ⟨ctx.shape, none, .take⟩ path link.argument).run ctx.slots = .error error) :
      ConversionFails path link below error
  | skip {ctx : Context} {error : CompileError} (op : link.operator = .skip)
      (closed : ctx = below.wrapIf below.current.isPaged)
      (fails : (convert ⟨ctx.shape, none, .skip⟩ path link.argument).run ctx.slots = .error error) :
      ConversionFails path link below error

/-- A chain at the given path has a link on top whose source is built but whose argument cannot be
converted. -/
def FailsAt (c : Compiler) (path : Path) (e : Expr) (error : CompileError) : Prop :=
  ∃ link below, Link.ofExpr? e = some link ∧ c.build link.source = .ok below ∧
    ConversionFails (path ++ [1]) link below error

/-- A chain at some depth of the template has such a link. -/
def FailsIn (c : Compiler) (depth : Nat) (e : Expr) (error : CompileError) : Prop :=
  ∃ k inner, (spine e)[k]? = some inner ∧ FailsAt c (List.replicate (depth + k) 0) inner error

section FailsIn

variable {c : Compiler} {depth : Nat} {e : Expr} {link : Link} {error : CompileError}

/-- In a chain that is an operator call, the call itself fails or a link of its source. -/
theorem failsIn_of_link (call : Link.ofExpr? e = some link) :
    FailsIn c depth e error ↔
      FailsAt c (List.replicate depth 0) e error ∨ FailsIn c (depth + 1) link.source error := by
  rw [FailsIn, spine_of_link call]
  constructor
  · rintro ⟨k, inner, hinner, fails⟩
    cases k with
    | zero =>
        cases hinner
        exact .inl fails
    | succ k => exact .inr ⟨k, inner, hinner, by rwa [Nat.add_assoc, Nat.add_comm 1]⟩
  · rintro (fails | ⟨k, inner, hinner, fails⟩)
    · exact ⟨0, e, rfl, fails⟩
    · exact ⟨k + 1, inner, hinner, by rwa [Nat.add_assoc, Nat.add_comm 1] at fails⟩

/-- What is no operator call has nothing to convert. -/
theorem not_failsIn_of_noLink (noCall : Link.ofExpr? e = none) : ¬ FailsIn c depth e error := by
  rintro ⟨k, inner, hinner, link, _, call, -⟩
  rw [spine_of_noLink noCall] at hinner
  have same : e = inner := List.mem_singleton.1 (List.mem_of_getElem? hinner) ▸ rfl
  rw [← same, noCall] at call
  cases call

end FailsIn

section Steps

variable {α β : Type}

/-- A sequence of two fallible steps fails with the error of the first one, or else of the second. -/
theorem bind_error {m : Except CompileError α} {f : α → Except CompileError β} {error : CompileError} :
    (m >>= f) = .error error ↔ m = .error error ∨ ∃ a, m = .ok a ∧ f a = .error error := by
  cases m with
  | error e => simp [bind, Except.bind]
  | ok a => simp [bind, Except.bind]

/-- A step that only rewrites a result fails with the error of what gave the result. -/
theorem bind_pure_error {m : Except CompileError α} {f : α → β} {error : CompileError} :
    (m >>= fun a => pure (f a)) = .error error ↔ m = .error error := by
  cases m with
  | error e => simp [bind, Except.bind]
  | ok a => simp [bind, Except.bind, pure, Except.pure]

theorem converting_error {ctx : Context} {conversion : Conversion α} {error : CompileError} :
    converting ctx conversion = .error error ↔ conversion.run ctx.slots = .error error :=
  bind_pure_error

end Steps

namespace Compiler

variable {c : Compiler} {e : Expr} {link : Link} {path : Path} {error : CompileError}

/-- Building a link that passes its own check means to build its source and then to convert the link's
argument. -/
def ExtendsBy (c : Compiler) (e : Expr) (link : Link) (path : Path)
    (step : Context → Except CompileError Context) : Prop :=
  (∀ below, c.extend (.ofOperator link.operator) e below = below () >>= step) ∧
    ∀ below error, step below = .error error ↔ ConversionFails (path ++ [1]) link below error

theorem extendsBy_filter (call : Link.ofExpr? e = some link) (spine : c.root.spinePath? e = some path)
    (op : link.operator = .filter) : ∃ step, ExtendsBy c e link path step := by
  refine ⟨fun below =>
    addPredicate (below.wrapIf below.current.isPaged) link.argument (path ++ [1]), ?_, ?_⟩
  · intro below
    simp only [Rule.ofOperator, op, extend, call, extendFilter, argPath_of_spine spine]
    rfl
  · intro below error
    unfold addPredicate
    cases selector : asSelector? link.argument with
    | none =>
        constructor
        · intro h
          cases h
          exact .noPredicate op selector
        · intro h
          cases h with
          | noPredicate _ _ => rfl
          -- Every other failure has a selector or is one of another operator.
          | _ => simp_all [SortKind.ofOperator?]
    | some selected =>
        rcases selected with ⟨param, body⟩
        simp only [bind_pure_error, converting_error]
        constructor
        · intro fails
          exact .predicate op selector rfl fails
        · intro h
          cases h with
          | predicate _ selector' closed fails =>
              cases selector.symm.trans selector'
              subst closed
              exact fails
          | _ => simp_all [SortKind.ofOperator?]

theorem extendsBy_select (call : Link.ofExpr? e = some link) (spine : c.root.spinePath? e = some path)
    (op : link.operator = .select) (passes : link.refusal? = none) :
    ∃ step, ExtendsBy c e link path step := by
  obtain ⟨⟨param, body⟩, selector⟩ : ∃ selected, asSelector? link.argument = some selected := by
    simpa [Link.refusal?, op, Option.ne_none_iff_exists'] using passes
  refine ⟨fun below => c.project below e link.argument param body, ?_, ?_⟩
  · intro below
    simp only [Rule.ofOperator, op, extend, call, extendSelect, selector]
  · intro below error
    unfold project
    cases element : isElement param body with
    -- The element itself is not converted, so nothing fails.
    | true =>
        constructor
        · intro h
          cases h
        · intro h
          cases h with
          | projection _ selector' notElement _ =>
              cases selector.symm.trans selector'
              simp [notElement] at element
          | _ => simp_all [SortKind.ofOperator?]
    | false =>
        simp only [Bool.false_eq_true, if_false, argPath_of_spine spine]
        constructor
        · intro h
          exact .projection op selector element (converting_error.1 (bind_pure_error.1 h))
        · intro h
          cases h with
          | projection _ selector' _ fails =>
              cases selector.symm.trans selector'
              exact bind_pure_error.2 (converting_error.2 fails)
          | _ => simp_all [SortKind.ofOperator?]

/-- A sort that passes its own check has a key that passes it. -/
theorem checkKey_of_passes {kind : SortKind} (op : SortKind.ofOperator? link.operator = some kind)
    (passes : link.refusal? = none) : checkKey kind link.argument = .ok () := by
  have key : (link.argument.asLambda?.all fun lambda => !isExplicitConstruction lambda.2) = true := by
    cases hop : link.operator <;> cases lambda : link.argument.asLambda? <;>
      simp_all [Link.refusal?, SortKind.ofOperator?, constructsExplicitly_iff]
  cases lambda : link.argument.asLambda? with
  | none => simp [checkKey, lambda]
  | some lambda' =>
      have allowed : isExplicitConstruction lambda'.2 = false := by simpa [lambda] using key
      simp [checkKey, lambda, allowed]

theorem extendsBy_sort {kind : SortKind} (call : Link.ofExpr? e = some link)
    (spine : c.root.spinePath? e = some path)
    (op : SortKind.ofOperator? link.operator = some kind) (passes : link.refusal? = none) :
    ∃ step, ExtendsBy c e link path step := by
  have rule : Rule.ofOperator link.operator = .sort := by
    cases hop : link.operator <;> simp_all [SortKind.ofOperator?, Rule.ofOperator]
  have checked : checkKey kind link.argument = .ok () := checkKey_of_passes op passes
  refine ⟨fun below =>
    addSort (below.wrapIf below.current.isPaged) kind link.argument (path ++ [1]), ?_, ?_⟩
  · intro below
    simp only [rule, extend, call, extendSort, op, checked, argPath_of_spine spine]
    rfl
  · intro below error
    unfold addSort
    cases selector : asSelector? link.argument with
    | none =>
        constructor
        · intro h
          cases h
          exact .noKey op selector
        · intro h
          cases h with
          | noKey _ _ => rfl
          | _ => simp_all [SortKind.ofOperator?]
    | some selected =>
        rcases selected with ⟨param, body⟩
        simp only [bind_pure_error, converting_error]
        constructor
        · intro fails
          exact .key op selector rfl fails
        · intro h
          cases h with
          | key _ selector' closed fails =>
              cases selector.symm.trans selector'
              subst closed
              exact fails
          | _ => simp_all [SortKind.ofOperator?]

/-- A bound is converted in the scope that it is set on. -/
theorem conversionFails_bound {isTake : Bool} {below : Context}
    (op : link.operator = bif isTake then .take else .skip) :
    ConversionFails path link below error ↔
      let ctx := below.wrapIf (bindsAgain isTake below.current)
      (convert ⟨ctx.shape, none, if isTake then .take else .skip⟩ path link.argument).run ctx.slots =
        .error error := by
  constructor
  · intro h
    cases h with
    | take op' closed fails =>
        cases isTake with
        | true =>
            subst closed
            exact fails
        | false => cases op'.symm.trans op
    | skip op' closed fails =>
        cases isTake with
        | true => cases op'.symm.trans op
        | false =>
            subst closed
            exact fails
    -- Every other failure is one of another operator.
    | _ => cases isTake <;> simp_all [SortKind.ofOperator?]
  · intro fails
    cases isTake with
    | true => exact .take op rfl fails
    | false => exact .skip op rfl fails

theorem extendsBy_bound (isTake : Bool) (call : Link.ofExpr? e = some link)
    (spine : c.root.spinePath? e = some path)
    (op : link.operator = bif isTake then .take else .skip) :
    ∃ step, ExtendsBy c e link path step := by
  refine ⟨fun below =>
    addBound (below.wrapIf (bindsAgain isTake below.current)) isTake link.argument (path ++ [1]),
    ?_, ?_⟩
  · intro below
    have rule : Rule.ofOperator link.operator = .page := by
      cases isTake <;> rw [op] <;> rfl
    have flag : (link.operator == .take) = isTake := by
      cases isTake <;> rw [op] <;> rfl
    simp only [rule, extend, call, extendPage, flag, argPath_of_spine spine]
    rfl
  · intro below error
    rw [conversionFails_bound op, ← converting_error]
    unfold addBound
    cases isTake <;> exact bind_pure_error

/-- Every operator call that passes its own check needs its source first and its conversion last. -/
theorem extendsBy_of_passes (call : Link.ofExpr? e = some link)
    (spine : c.root.spinePath? e = some path) (passes : link.refusal? = none) :
    ∃ step, ExtendsBy c e link path step := by
  cases op : link.operator with
  | filter => exact extendsBy_filter call spine op
  | select => exact extendsBy_select call spine op passes
  | take => exact extendsBy_bound true call spine op
  | skip => exact extendsBy_bound false call spine op
  | orderBy | orderByDescending | thenBy | thenByDescending =>
      exact extendsBy_sort call spine (by rw [op]; rfl) passes

/-! ## Errors of a chain -/

/-- An operator call that is refused for its own form needs no source. -/
theorem extend_of_refusal (call : Link.ofExpr? e = some link) (refused : link.refusal? = some error)
    (below : Unit → Except CompileError Context) :
    c.extend (.ofOperator link.operator) e below = .error error := by
  cases op : link.operator with
  | filter | take | skip => simp [Link.refusal?, op] at refused
  | select =>
      simp only [Link.refusal?, op, Option.ite_none_right_eq_some, Option.isNone_iff_eq_none,
        Option.some.injEq] at refused
      obtain ⟨noSelector, rfl⟩ := refused
      simp [Rule.ofOperator, extend, call, extendSelect, noSelector]
  | orderBy | orderByDescending | thenBy | thenByDescending =>
      simp only [Link.refusal?, op] at refused
      split at refused
      · next params body lambda =>
          obtain ⟨explicit, hsome⟩ := Option.ite_none_right_eq_some.1 refused
          cases hsome
          simp [Rule.ofOperator, extend, call, extendSort, op, SortKind.ofOperator?, checkKey, lambda,
            constructsExplicitly_iff.1 explicit, SortKind.operator, bind, Except.bind]
      · cases refused

/-- What is no operator call fails for its own form alone. -/
theorem build_of_noLink_error (complete : c.rules = Rule.all) (noCall : Link.ofExpr? e = none) :
    c.build e = .error error ↔ refusal? c.schema e = some error := by
  rw [build_of_noLink noCall, dispatch]
  by_cases literal : ∃ table, e.node = .constant (.table table)
  · obtain ⟨table, hnode⟩ := literal
    have found : c.findRule? e = some .table :=
      findRule?_eq_some.2 ⟨by simp [complete, Rule.all], by simp [Rule.accepts, hnode]⟩
    simp only [found, extend, startTable, refusal?, noCall, hnode]
    cases c.schema.tableSource? table.model <;> simp
  · have notFound : c.findRule? e = none := by
      refine List.find?_eq_none.2 fun rule _ accepted => ?_
      exact literal (table_of_accepts noCall accepted).2
    have refused : refusal? c.schema e = some (.unacceptedLink (Link.describe e)) := by
      rw [refusal?, noCall]
      simp only
      split
      · next table hnode => exact absurd ⟨table, hnode⟩ literal
      · rfl
    rw [notFound, refused]
    simp

/-- The context of a link that passes its own check fails with its source, or else with its own
conversion. -/
theorem build_of_link_error (complete : c.rules = Rule.all) (call : Link.ofExpr? e = some link)
    (spine : c.root.spinePath? e = some path) (passes : link.refusal? = none) :
    c.build e = .error error ↔ c.build link.source = .error error ∨ FailsAt c path e error := by
  obtain ⟨step, hextend, hfails⟩ := extendsBy_of_passes (c := c) call spine passes
  rw [build_of_link call, dispatch_of_complete complete call, hextend, bind_error]
  refine or_congr_right ⟨?_, ?_⟩
  · rintro ⟨below, built, fails⟩
    exact ⟨link, below, call, built, (hfails below error).1 fails⟩
  · rintro ⟨link', below, call', built, fails⟩
    cases call.symm.trans call'
    exact ⟨below, built, (hfails below error).2 fails⟩

theorem build_of_link_refused (complete : c.rules = Rule.all) (call : Link.ofExpr? e = some link)
    (refused : refusal? c.schema e = some error) : c.build e = .error error := by
  rw [refusal?_of_link call] at refused
  rw [build_of_link call, dispatch_of_complete complete call, extend_of_refusal call refused]

/-- A chain fails with the error of its outermost link of a wrong form.  If there is none, it fails with
the error of the link that cannot be converted although its source is built. -/
theorem build_error (complete : c.rules = Rule.all) (depth : Nat)
    (position : c.root.resolve? (List.replicate depth 0) = some e) :
    c.build e = .error error ↔
      (spine e).findSome? (refusal? c.schema) = some error ∨
        ((spine e).findSome? (refusal? c.schema) = none ∧ FailsIn c depth e error) := by
  induction e using chain_induction generalizing depth error with
  | other e noCall =>
      have nowhere : ¬ FailsIn c depth e error := not_failsIn_of_noLink noCall
      rw [build_of_noLink_error complete noCall, spine_of_noLink noCall]
      simp [nowhere]
  | link e link call ih =>
      have source := fun error => @ih error (depth + 1)
        (resolve?_source_of_spine depth call position)
      rw [spine_of_link call, List.findSome?_cons, failsIn_of_link call]
      cases refused : refusal? c.schema e with
      | some first =>
          have failed : c.build e = .error first := build_of_link_refused complete call refused
          simp [failed]
      | none =>
          have passes : link.refusal? = none := by rwa [refusal?_of_link call] at refused
          have spinePath := Expr.spinePath?_of_resolve? depth position
          -- A link whose source is built stands above no link of a wrong form.
          have built : FailsAt c (List.replicate depth 0) e error →
              (spine link.source).findSome? (refusal? c.schema) = none := by
            rintro ⟨link', below, call', hbelow, -⟩
            cases call.symm.trans call'
            cases first : (spine link.source).findSome? (refusal? c.schema) with
            | none => rfl
            | some refusal => cases hbelow.symm.trans ((source refusal).2 (.inl first))
          rw [build_of_link_error complete call spinePath passes, source]
          constructor
          · rintro ((form | ⟨formed, fails⟩) | fails)
            · exact .inl form
            · exact .inr ⟨formed, .inr fails⟩
            · exact .inr ⟨built fails, .inl fails⟩
          · rintro (form | ⟨formed, fails | fails⟩)
            · exact .inl (.inl form)
            · exact .inr fails
            · exact .inl (.inr ⟨formed, fails⟩)

/-- A chain with an argument that cannot be converted is not built. -/
theorem build_ne_ok_of_failsIn (complete : c.rules = Rule.all) (depth : Nat)
    (position : c.root.resolve? (List.replicate depth 0) = some e) (fails : FailsIn c depth e error)
    (ctx : Context) : c.build e ≠ .ok ctx := by
  intro built
  cases first : (spine e).findSome? (refusal? c.schema) with
  | none => cases built.symm.trans ((build_error complete depth position).2 (.inr ⟨first, fails⟩))
  | some refusal => cases built.symm.trans ((build_error complete depth position).2 (.inl first))

/-- Below a link that fails although its source is built, no link fails. -/
theorem failsAt_innermost (complete : c.rules = Rule.all) (depth : Nat)
    (position : c.root.resolve? (List.replicate depth 0) = some e) {k j : Nat} {outer inner : Expr}
    {error' : CompileError} (deeper : k < j) (houter : (spine e)[k]? = some outer)
    (fails : FailsAt c (List.replicate (depth + k) 0) outer error)
    (hinner : (spine e)[j]? = some inner) :
    ¬ FailsAt c (List.replicate (depth + j) 0) inner error' := by
  intro fails'
  induction e using chain_induction generalizing depth k j with
  | other e noCall => exact not_failsIn_of_noLink noCall ⟨k, outer, houter, fails⟩
  | link e link call ih =>
      have source := resolve?_source_of_spine depth call position
      rw [spine_of_link call] at houter hinner
      obtain ⟨j, rfl⟩ : ∃ i, j = i + 1 := ⟨j - 1, by omega⟩
      have shifted : ∀ i, depth + (i + 1) = depth + 1 + i := by omega
      rw [shifted] at fails'
      cases k with
      | zero =>
          cases houter
          rcases fails with ⟨link', below, call', built, -⟩
          cases call.symm.trans call'
          exact build_ne_ok_of_failsIn complete (depth + 1) source ⟨j, inner, hinner, fails'⟩ below
            built
      | succ k =>
          rw [shifted] at fails
          exact ih (depth + 1) source (by omega) houter fails hinner fails'

end Compiler

/-- Under a complete registry, the error of a template that does not compile is that of the outermost
link of a wrong form.  If no form is wrong, it is the error of the innermost link whose argument cannot be
converted in the context that the links below it build. -/
theorem compile_error_iff (serial : Nat) (schema : Schema) (t : Expr) (error : CompileError) :
    let c : Compiler := ⟨Rule.all, schema, t⟩
    Plan.compile serial Rule.all schema t = .error error ↔
      (spine t).findSome? (refusal? schema) = some error ∨
        ((spine t).findSome? (refusal? schema) = none ∧
          ∃ k e, (spine t)[k]? = some e ∧ FailsAt c (List.replicate k 0) e error ∧
            ∀ j inner error', k < j → (spine t)[j]? = some inner →
              ¬ FailsAt c (List.replicate j 0) inner error') := by
  intro c
  have root : c.root.resolve? (List.replicate 0 0) = some t := t.resolve?_nil
  have failed : Plan.compile serial Rule.all schema t = .error error ↔ c.build t = .error error := by
    rw [Plan.compile, bind_pure_error]
    exact bind_pure_error
  have somewhere : FailsIn c 0 t error ↔
      ∃ k e, (spine t)[k]? = some e ∧ FailsAt c (List.replicate k 0) e error ∧
        ∀ j inner error', k < j → (spine t)[j]? = some inner →
          ¬ FailsAt c (List.replicate j 0) inner error' := by
    constructor
    · rintro ⟨k, e, he, fails⟩
      refine ⟨k, e, he, by rwa [Nat.zero_add] at fails, ?_⟩
      intro j inner error' deeper hinner
      have innermost : ¬ FailsAt c (List.replicate (0 + j) 0) inner error' :=
        Compiler.failsAt_innermost rfl 0 root deeper he fails hinner
      rwa [Nat.zero_add] at innermost
    · rintro ⟨k, e, he, fails, -⟩
      exact ⟨k, e, he, by rwa [Nat.zero_add]⟩
  rw [failed, Compiler.build_error rfl 0 root, somewhere]

end Compile
end QueryPlan
