import QueryPlan.Compile.Template
import QueryPlan.Proofs.Compile.Selector
import QueryPlan.Proofs.Expr.Position

/-!
# Derivation — what a successful compilation has done

`Extends slots path link below ctx` says everything that one link can do to the context built below
it: one constructor for each group of operators, a scope closed first where the operator demands it.
`Builds schema slots path e ctx` composes these steps from the table outwards, where `e` stands at
`path` in the template.  Neither mentions registries, errors or the order of checks, and `slots` is
the list of slots that the compilation ends with.

`builds_of_build` is the only place that opens the compiler's rules.  Everything that holds of
contexts built by successful compilations follows by induction on `Builds`.
-/

namespace QueryPlan

/-- An operator is known by its method. -/
theorem Operator.ofMethod?_eq_some {m : Method} {op : Operator} :
    ofMethod? m = some op ↔ m = op.method := by
  rcases m with ⟨declaring, name⟩
  unfold ofMethod?
  constructor
  · intro h
    split at h
    · next heq =>
        have hname : op.methodName = name := by simpa using List.find?_some h
        simp only at heq
        rw [heq, ← hname, method]
    · cases h
  · intro h
    cases h
    cases op <;> rfl

namespace Compile

open Sql (Context OrderItem Scope Shape Slot Term)

/-! ## Steps -/

/-- The positions that a link binds in its argument, which stands at the given path. -/
def Link.slots (link : Link) (path : Path) : List Slot :=
  match link.operator, asSelector? link.argument with
  | .take, _ | .skip, _ => boundSlots path link.argument
  | _, none => []
  | .filter, some (_, body) => boundSlots (bodyPath link.argument path) body
  | .select, some (param, body) =>
      if Compiler.isElement param body then
        []
      else
        projectionSlots (bodyPath link.argument path) body
  | _, some (_, body) => keySlots (bodyPath link.argument path) body

/-- The positions that a chain binds, innermost link first. -/
def chainSlots (path : Path) (e : Expr) : List Slot :=
  match e with
  | ⟨_, _, .call m none [source, argument]⟩ =>
      match Operator.ofMethod? m with
      | some operator =>
          chainSlots (path ++ [0]) source ++ Link.slots ⟨operator, source, argument⟩ (path ++ [1])
      | none => []
  | _ => []
termination_by structural e

/-- A link whose argument stands at the given path extends a context. -/
inductive Extends (slots : List Slot) (path : Path) (link : Link) (below : Context) :
    Context → Prop where
  | filter {param : Param} {body : Expr} {ctx : Context} {τ : Term}
      (op : link.operator = .filter) (selector : asSelector? link.argument = some (param, body))
      (closed : ctx = below.wrapIf below.current.isPaged)
      (predicate : Converts slots ⟨ctx.shape, some param.name, .filter⟩
        (bodyPath link.argument path) body τ) :
      Extends slots path link below
        { ctx with
          current := Compiler.addFilter ctx.current τ
          slots := ctx.slots ++ link.slots path }
  | identity {param : Param} {body : Expr}
      (op : link.operator = .select) (selector : asSelector? link.argument = some (param, body))
      (element : Compiler.isElement param body = true) :
      Extends slots path link below below
  | select {param : Param} {body : Expr} {shape : Shape}
      (op : link.operator = .select) (selector : asSelector? link.argument = some (param, body))
      (notElement : Compiler.isElement param body = false)
      (projected : Projects slots ⟨below.shape, some param.name, .select⟩
        (bodyPath link.argument path) body shape) :
      Extends slots path link below
        { below with
          shape, element := body.ty
          slots := below.slots ++ link.slots path }
  | sort {kind : SortKind} {param : Param} {body : Expr} {ctx : Context} {terms : List Term}
      (op : SortKind.ofOperator? link.operator = some kind)
      (selector : asSelector? link.argument = some (param, body))
      (allowed : Compiler.isExplicitConstruction body = false)
      (closed : ctx = below.wrapIf below.current.isPaged)
      (keyed : Keyed slots ⟨ctx.shape, some param.name, .orderBy⟩
        (bodyPath link.argument path) body terms) :
      Extends slots path link below
        { ctx with
          current := Compiler.addOrder ctx.current kind terms
          slots := ctx.slots ++ link.slots path }
  | take {ctx : Context} {τ : Term}
      (op : link.operator = .take) (closed : ctx = below.wrapIf below.current.take.isSome)
      (bound : Converts slots ⟨ctx.shape, none, .take⟩ path link.argument τ) :
      Extends slots path link below
        { ctx with
          current := { ctx.current with take := some τ }
          slots := ctx.slots ++ link.slots path }
  | skip {ctx : Context} {τ : Term}
      (op : link.operator = .skip) (closed : ctx = below.wrapIf below.current.isPaged)
      (bound : Converts slots ⟨ctx.shape, none, .skip⟩ path link.argument τ) :
      Extends slots path link below
        { ctx with
          current := { ctx.current with skip := some τ }
          slots := ctx.slots ++ link.slots path }

/-- Slots that are registered later do not change a step. -/
theorem Extends.mono {slots slots' : List Slot} {path : Path} {link : Link} {below ctx : Context}
    (h : Extends slots path link below ctx) (hle : slots <+: slots') :
    Extends slots' path link below ctx := by
  cases h with
  | filter op selector closed predicate =>
      exact .filter op selector closed (predicate.mono hle)
  | identity op selector element => exact .identity op selector element
  | select op selector notElement projected =>
      exact .select op selector notElement (projected.mono hle)
  | sort op selector allowed closed keyed =>
      exact .sort op selector allowed closed (keyed.mono hle)
  | take op closed bound => exact .take op closed (bound.mono hle)
  | skip op closed bound => exact .skip op closed (bound.mono hle)

/-- A chain at the given path builds a context. -/
inductive Builds (schema : Schema) (slots : List Slot) : Path → Expr → Context → Prop where
  | table {path : Path} {e : Expr} {table : Table} {source : TableSource}
      (literal : e.node = .constant (.table table))
      (resolved : schema.tableSource? table.model = some source) :
      Builds schema slots path e (.ofSource source table.element)
  | link {path : Path} {e : Expr} {link : Link} {below ctx : Context}
      (call : Link.ofExpr? e = some link)
      (source : Builds schema slots (path ++ [0]) link.source below)
      (step : Extends slots (path ++ [1]) link below ctx) :
      Builds schema slots path e ctx

theorem Builds.mono {schema : Schema} {slots slots' : List Slot} {path : Path} {e : Expr}
    {ctx : Context} (h : Builds schema slots path e ctx) (hle : slots <+: slots') :
    Builds schema slots' path e ctx := by
  induction h with
  | table literal resolved => exact .table literal resolved
  | link call _ step ih => exact .link call ih (step.mono hle)

/-- A resolved table source is mapped by the model it was resolved for. -/
theorem model_of_tableSource {schema : Schema} {model : Model} {source : TableSource}
    (h : schema.tableSource? model = some source) : source.model = model := by
  unfold Schema.tableSource? at h
  split at h
  · cases h
    rfl
  · split at h
    · cases h
    · cases h
      rfl

/-! ## Links -/

namespace Link

/-- An operator call is a call without receiver of the operator's method. -/
theorem ofExpr?_eq_some {e : Expr} {link : Link} :
    ofExpr? e = some link ↔
      ∃ id ty m, e = ⟨id, ty, .call m none [link.source, link.argument]⟩ ∧
        Operator.ofMethod? m = some link.operator := by
  rcases e with ⟨id, ty, node⟩
  rcases link with ⟨operator, source, argument⟩
  rw [ofExpr?]
  split
  · next m s a hnode =>
      simp only at hnode
      subst hnode
      simp only [Option.map_eq_some_iff, mk.injEq, Expr.mk.injEq, Node.call.injEq]
      grind
  · next hnode =>
      simp only [reduceCtorEq, false_iff, not_exists, not_and]
      rintro _ _ m heq
      cases heq
      exact absurd rfl (hnode m source argument)

/-- The source of a link is its first child and the argument its second one. -/
theorem children_of_ofExpr? {e : Expr} {link : Link} (h : ofExpr? e = some link) :
    e.children = [link.source, link.argument] := by
  rcases ofExpr?_eq_some.1 h with ⟨id, ty, m, rfl, -⟩
  rfl

theorem resolve?_source {t e : Expr} {link : Link} {path : Path} (h : ofExpr? e = some link)
    (position : t.resolve? path = some e) : t.resolve? (path ++ [0]) = some link.source := by
  refine Expr.resolve?_child position ?_
  rw [children_of_ofExpr? h]
  rfl

theorem resolve?_argument {t e : Expr} {link : Link} {path : Path} (h : ofExpr? e = some link)
    (position : t.resolve? path = some e) : t.resolve? (path ++ [1]) = some link.argument := by
  refine Expr.resolve?_child position ?_
  rw [children_of_ofExpr? h]
  rfl

end Link

/-- Induction along the sources of a chain. -/
theorem chain_induction {motive : Expr → Prop}
    (link : ∀ e link, Link.ofExpr? e = some link → motive link.source → motive e)
    (other : ∀ e, Link.ofExpr? e = none → motive e) (e : Expr) : motive e := by
  induction e using Expr.inductionOnChildren with
  | step e ih =>
      cases call : Link.ofExpr? e with
      | none => exact other e call
      | some l =>
          have source : l.source ∈ e.children := by
            simp [Link.children_of_ofExpr? call]
          exact link e l call (ih l.source source)

theorem chainSlots_of_link {e : Expr} {link : Link} (path : Path)
    (h : Link.ofExpr? e = some link) :
    chainSlots path e = chainSlots (path ++ [0]) link.source ++ link.slots (path ++ [1]) := by
  rcases Link.ofExpr?_eq_some.1 h with ⟨id, ty, m, rfl, hm⟩
  rw [chainSlots, hm]

/-- Only links bind positions. -/
theorem chainSlots_of_noLink {e : Expr} (path : Path) (h : Link.ofExpr? e = none) :
    chainSlots path e = [] := by
  unfold chainSlots
  split
  · next m source argument =>
      have hop : Operator.ofMethod? m = none := by simpa [Link.ofExpr?] using h
      rw [hop]
  · rfl

/-! ## Successful steps -/

/-- A sequence of two fallible steps succeeds exactly when both do. -/
theorem bind_ok {α β : Type} {m : Except CompileError α} {f : α → Except CompileError β} {b : β} :
    (m >>= f) = .ok b ↔ ∃ a, m = .ok a ∧ f a = .ok b := by
  cases m with
  | error e => simp [bind, Except.bind]
  | ok a => simp [bind, Except.bind]

/-- A result of which something is seen was computed without error. -/
theorem exists_ok_of_view {α β : Type} {result : Except CompileError α} {view : α → β} {b : β}
    (h : result.toOption.map view = some b) : ∃ a, result = .ok a ∧ view a = b := by
  cases hresult : result with
  | error e => simp [hresult, Except.toOption] at h
  | ok a =>
      have hview : view a = b := by simpa [hresult, Except.toOption] using h
      exact ⟨a, rfl, hview⟩

/-- A conversion run against a context changes its slots and nothing else. -/
theorem converting_ok {α : Type} {ctx ctx' : Context} {conversion : Conversion α} {result : α} :
    converting ctx conversion = .ok (result, ctx') ↔
      ∃ slots, conversion.run ctx.slots = .ok (result, slots) ∧ ctx' = { ctx with slots } := by
  rw [converting, bind_ok]
  constructor
  · rintro ⟨⟨_, slots⟩, hrun, hpure⟩
    cases hpure
    exact ⟨slots, hrun, rfl⟩
  · rintro ⟨slots, hrun, rfl⟩
    exact ⟨(result, slots), hrun, rfl⟩

@[simp] theorem wrapIf_slots (ctx : Context) (condition : Bool) :
    (ctx.wrapIf condition).slots = ctx.slots := by
  cases condition <;> rfl

namespace Compiler

variable {c : Compiler} {e : Expr} {link : Link} {path : Path} {ctx : Context}
  {below : Unit → Except CompileError Context}

/-- The first argument of a link on the spine stands right after the link's source. -/
theorem argPath_of_spine (h : c.root.spinePath? e = some path) :
    c.argPath e 0 = .ok (path ++ [1]) := by
  rw [argPath, h]
  rfl

/-- A key that passes its check constructs no entity explicitly. -/
theorem allowed_of_checkKey {kind : SortKind} {argument body : Expr} {param : Param}
    (selector : asSelector? argument = some (param, body)) (h : checkKey kind argument = .ok ()) :
    isExplicitConstruction body = false := by
  unfold asSelector? at selector
  split at selector
  · next p b hlambda =>
      cases selector
      simpa [checkKey, hlambda] using h
  · cases selector

/-- What a successful rule has done: it built the source of the link and extended its context. -/
def Extended (link : Link) (path : Path) (below : Unit → Except CompileError Context)
    (ctx : Context) : Prop :=
  ∃ inner, below () = .ok inner ∧ ctx.slots = inner.slots ++ link.slots (path ++ [1]) ∧
    Extends ctx.slots (path ++ [1]) link inner ctx

theorem extended_of_extendFilter (op : link.operator = .filter)
    (spine : c.root.spinePath? e = some path) (h : c.extendFilter e link below = .ok ctx) :
    Extended link path below ctx := by
  rw [extendFilter] at h
  rcases bind_ok.1 h with ⟨inner, hinner, h⟩
  rcases bind_ok.1 h with ⟨_, hpath, h⟩
  -- The argument's path is found from the link's own position on the spine.
  cases (argPath_of_spine spine).symm.trans hpath
  unfold addPredicate at h
  split at h
  · cases h
  · next param body selector =>
      rcases bind_ok.1 h with ⟨⟨τ, converted⟩, hconverting, hpure⟩
      rcases converting_ok.1 hconverting with ⟨slots, hrun, rfl⟩
      rcases converts_of_run hrun with ⟨rfl, hconv⟩
      cases hpure
      have hslots : link.slots (path ++ [1]) =
          boundSlots (bodyPath link.argument (path ++ [1])) body := by
        simp only [Link.slots, op, selector]
      refine ⟨inner, hinner, by simp [hslots], ?_⟩
      have step : Extends _ (path ++ [1]) link inner _ := .filter op selector rfl hconv
      rwa [hslots] at step

theorem extended_of_extendSelect (op : link.operator = .select)
    (spine : c.root.spinePath? e = some path) (h : c.extendSelect e link below = .ok ctx) :
    Extended link path below ctx := by
  unfold extendSelect at h
  split at h
  · cases h
  · next param body selector =>
      rcases bind_ok.1 h with ⟨inner, hinner, h⟩
      unfold project at h
      split at h
      · next element =>
          cases h
          have hslots : link.slots (path ++ [1]) = [] := by
            simp only [Link.slots, op, selector, element, if_true]
          exact ⟨ctx, hinner, by simp [hslots], .identity op selector element⟩
      · next notElement =>
          rcases bind_ok.1 h with ⟨_, hpath, h⟩
          cases (argPath_of_spine spine).symm.trans hpath
          rcases bind_ok.1 h with ⟨⟨shape, converted⟩, hconverting, hpure⟩
          rcases converting_ok.1 hconverting with ⟨slots, hrun, rfl⟩
          rcases projects_of_run hrun with ⟨rfl, hproj⟩
          cases hpure
          rw [Bool.not_eq_true] at notElement
          have hslots : link.slots (path ++ [1]) =
              projectionSlots (bodyPath link.argument (path ++ [1])) body := by
            simp [Link.slots, op, selector, notElement]
          refine ⟨inner, hinner, by rw [hslots], ?_⟩
          have step : Extends _ (path ++ [1]) link inner _ := .select op selector notElement hproj
          rwa [hslots] at step

theorem extended_of_extendSort (spine : c.root.spinePath? e = some path)
    (h : c.extendSort e link below = .ok ctx) : Extended link path below ctx := by
  unfold extendSort at h
  split at h
  · cases h
  · next kind op =>
      rcases bind_ok.1 h with ⟨_, hcheck, h⟩
      rcases bind_ok.1 h with ⟨inner, hinner, h⟩
      rcases bind_ok.1 h with ⟨_, hpath, h⟩
      cases (argPath_of_spine spine).symm.trans hpath
      unfold addSort at h
      split at h
      · cases h
      · next param body selector =>
          rcases bind_ok.1 h with ⟨⟨terms, converted⟩, hconverting, hpure⟩
          rcases converting_ok.1 hconverting with ⟨slots, hrun, rfl⟩
          rcases keyed_of_run hrun with ⟨rfl, hkeyed⟩
          cases hpure
          have hslots : link.slots (path ++ [1]) =
              keySlots (bodyPath link.argument (path ++ [1])) body := by
            -- All four sort operators bind what their key binds.
            cases hop : link.operator <;> simp_all [SortKind.ofOperator?, Link.slots]
          refine ⟨inner, hinner, by simp [hslots], ?_⟩
          have step : Extends _ (path ++ [1]) link inner _ := .sort op selector
            (allowed_of_checkKey selector hcheck) rfl hkeyed
          rwa [hslots] at step

theorem extended_of_extendPage (op : link.operator = .take ∨ link.operator = .skip)
    (spine : c.root.spinePath? e = some path) (h : c.extendPage e link below = .ok ctx) :
    Extended link path below ctx := by
  unfold extendPage at h
  rcases bind_ok.1 h with ⟨inner, hinner, h⟩
  rcases bind_ok.1 h with ⟨_, hpath, h⟩
  cases (argPath_of_spine spine).symm.trans hpath
  unfold addBound at h
  rcases bind_ok.1 h with ⟨⟨τ, converted⟩, hconverting, hpure⟩
  rcases converting_ok.1 hconverting with ⟨slots, hrun, rfl⟩
  rcases converts_of_run hrun with ⟨rfl, hconv⟩
  have hslots : link.slots (path ++ [1]) = boundSlots (path ++ [1]) link.argument := by
    rcases op with op | op <;> simp [Link.slots, op]
  rcases op with op | op
  · simp only [op, beq_self_eq_true, if_true] at hpure hconv
    cases hpure
    refine ⟨inner, hinner, by simp [hslots], ?_⟩
    have step : Extends _ (path ++ [1]) link inner _ := .take op rfl hconv
    rwa [hslots] at step
  · simp only [op] at hpure hconv
    cases hpure
    refine ⟨inner, hinner, by simp [hslots], ?_⟩
    have step : Extends _ (path ++ [1]) link inner _ := .skip op rfl hconv
    rwa [hslots] at step

/-- A rule that accepts a link extends the context of the link's source. -/
theorem extended_of_extend {rule : Rule} (call : Link.ofExpr? e = some link)
    (accepted : rule.accepts e = true) (spine : c.root.spinePath? e = some path)
    (h : c.extend rule e below = .ok ctx) : Extended link path below ctx := by
  unfold extend at h
  rw [call] at h
  cases rule with
  | table =>
      -- The table rule accepts literals, and a link is a call.
      rcases Link.ofExpr?_eq_some.1 call with ⟨id, ty, m, rfl, -⟩
      simp [Rule.accepts] at accepted
  | filter =>
      have op : link.operator = .filter := by simpa [Rule.accepts, call] using accepted
      exact extended_of_extendFilter op spine h
  | select =>
      have op : link.operator = .select := by simpa [Rule.accepts, call] using accepted
      exact extended_of_extendSelect op spine h
  | sort => exact extended_of_extendSort spine h
  | page =>
      have op : link.operator = .take ∨ link.operator = .skip := by
        simpa [Rule.accepts, call] using accepted
      exact extended_of_extendPage op spine h

/-- A successful dispatch went through a rule that accepts the link. -/
theorem dispatch_ok (h : c.dispatch e below = .ok ctx) :
    ∃ rule ∈ c.rules, rule.accepts e = true ∧ c.extend rule e below = .ok ctx := by
  unfold dispatch at h
  split at h
  · next rule hrule =>
      unfold findRule? at hrule
      have accepted : rule.accepts e = true := by simpa using List.find?_some hrule
      exact ⟨rule, List.mem_of_find?_eq_some hrule, accepted, h⟩
  · cases h

/-- Only table literals are accepted besides operator calls. -/
theorem table_of_accepts {rule : Rule} (noCall : Link.ofExpr? e = none)
    (accepted : rule.accepts e = true) :
    rule = .table ∧ ∃ table, e.node = .constant (.table table) := by
  cases rule with
  | table =>
      simp only [Rule.accepts] at accepted
      split at accepted
      · next table literal => exact ⟨rfl, table, literal⟩
      · cases accepted
  | _ => simp [Rule.accepts, noCall] at accepted

theorem builds_of_startTable (h : c.startTable e = .ok ctx) (slots : List Slot) :
    ctx.slots = [] ∧ Builds c.schema slots path e ctx := by
  unfold startTable at h
  split at h
  · next table literal =>
      split at h
      · next source resolved =>
          cases h
          exact ⟨rfl, .table literal resolved⟩
      · cases h
  · cases h

/-- The source of an operator call is built first. -/
theorem build_of_link (call : Link.ofExpr? e = some link) :
    c.build e = c.dispatch e fun _ => c.build link.source := by
  rcases Link.ofExpr?_eq_some.1 call with ⟨id, ty, m, rfl, -⟩
  rw [build]

/-- Rules that accept a node without being an operator call ask for no source. -/
theorem dispatch_of_noLink (noCall : Link.ofExpr? e = none)
    (below below' : Unit → Except CompileError Context) :
    c.dispatch e below = c.dispatch e below' := by
  unfold dispatch
  split
  · next rule _ =>
      cases rule <;> simp only [extend, noCall]
  · rfl

theorem build_of_noLink (noCall : Link.ofExpr? e = none) :
    c.build e = c.dispatch e fun _ => .error (.unacceptedLink (Link.describe e)) := by
  rw [build.eq_def]
  split
  · exact dispatch_of_noLink noCall _ _
  · exact dispatch_of_noLink noCall _ _

/-- The source of a link at depth `k` stands at depth `k + 1`. -/
theorem resolve?_source_of_spine (k : Nat) (call : Link.ofExpr? e = some link)
    (position : c.root.resolve? (List.replicate k 0) = some e) :
    c.root.resolve? (List.replicate (k + 1) 0) = some link.source := by
  rw [List.replicate_succ']
  exact Link.resolve?_source call position

/-- The links of a chain stand on the spine of the template, so a successful compilation builds the
chain and binds exactly the positions listed. -/
theorem builds_of_build (k : Nat) (position : c.root.resolve? (List.replicate k 0) = some e)
    (h : c.build e = .ok ctx) :
    ctx.slots = chainSlots (List.replicate k 0) e ∧
      Builds c.schema ctx.slots (List.replicate k 0) e ctx := by
  induction e using chain_induction generalizing k ctx with
  | link e link call ih =>
      rw [build_of_link call] at h
      rcases dispatch_ok h with ⟨rule, -, accepted, hextend⟩
      obtain ⟨inner, hinner, hslots, step⟩ :=
        extended_of_extend call accepted (Expr.spinePath?_of_resolve? k position) hextend
      have source := resolve?_source_of_spine k call position
      rcases ih (k + 1) source hinner with ⟨hbelow, hbuilds⟩
      rw [List.replicate_succ'] at hbelow hbuilds
      -- The source was built with fewer slots than the whole chain ends with.
      have hle : inner.slots <+: ctx.slots := ⟨_, hslots.symm⟩
      refine ⟨?_, .link call (hbuilds.mono hle) step⟩
      rw [hslots, hbelow, chainSlots_of_link _ call]
  | other e noCall =>
      rw [build_of_noLink noCall] at h
      rcases dispatch_ok h with ⟨rule, -, accepted, hextend⟩
      rcases table_of_accepts noCall accepted with ⟨rfl, -⟩
      have hstart : c.startTable e = .ok ctx := by
        rwa [extend] at hextend
      rcases builds_of_startTable hstart ctx.slots with ⟨hslots, hbuilds⟩
      refine ⟨?_, hbuilds⟩
      rw [hslots, chainSlots_of_noLink _ noCall]

/-- A template compiles to the query of the context that its chain builds. -/
theorem query_ok {query : Sql.Query} :
    c.query = .ok query ↔ ∃ ctx, c.build c.root = .ok ctx ∧ ctx.finish = query := by
  rw [Compiler.query, bind_ok]
  constructor
  · rintro ⟨ctx, hctx, hpure⟩
    cases hpure
    exact ⟨ctx, hctx, rfl⟩
  · rintro ⟨ctx, hctx, rfl⟩
    exact ⟨ctx, hctx, rfl⟩

theorem exists_query_of_view {α : Type} {view : Sql.Query → α} {a : α}
    (h : c.query.toOption.map view = some a) : ∃ query, c.query = .ok query ∧ view query = a :=
  exists_ok_of_view h

end Compiler

end Compile
end QueryPlan
