import QueryPlan.Plan
import QueryPlan.Proofs.Compile.Slots
import QueryPlan.Proofs.Expr.Alike

/-!
# Reuse — interchangeable templates compile to the same query

Compilation is run on two interchangeable templates at once.  Each function of the compiler is shown
to look only at what such templates have in common, so that the two runs take the same branches, stop
at the same error or end with the same result.  Literals that are bound as parameters leave no trace
in the query: of these only the position is kept.
-/

namespace QueryPlan
namespace Compile

open Sql (Context Query Shape Slot Term)

variable {models : Ty → Model}

/-! ## Bodies -/

theorem isInlineNull_eq {a b : Expr} (h : Interchangeable models a b) :
    isInlineNull a = isInlineNull b := by
  rcases h.related with ⟨hty, hnodes⟩
  rcases a with ⟨i, ty, n⟩
  rcases b with ⟨j, ty', n'⟩
  cases hty
  cases hnodes with
  | constant literal =>
      -- Only inlined types are asked for null, and their literals are equal.
      cases hinlined : ty.isInlined with
      | false => simp [isInlineNull, hinlined]
      | true => rw [literal.eq_of_isInlined hinlined]; rfl
  | _ => simp [isInlineNull, Expr.asConstant?]

theorem convertMember_scalar (frame : Frame) (path : Path) (m : Member) {id : Nat} {ty : Ty}
    {v : Value} (scalar : v.isScalar = true) :
    convertMember frame path m (some ⟨id, ty, .constant v⟩) =
      throw (.unsupportedExpression .member frame.place) := by
  cases v with
  | closure env => cases scalar
  | _ => rfl

/-- What a member is read from is decided by its kind, and by its type if it is a literal. -/
theorem convertMember_eq (frame : Frame) (path : Path) {m m' : Member} {o o' : Option Expr}
    (name : m.name = m'.name) (object : Option.Rel (Interchangeable models) o o') :
    convertMember frame path m o = convertMember frame path m' o' := by
  cases object with
  | none => rfl
  | @some a b hab =>
      rcases hab.related with ⟨hty, hnodes⟩
      rcases a with ⟨i, ty, n⟩
      rcases b with ⟨j, ty', n'⟩
      cases hty
      cases hnodes with
      | parameter => simp only [convertMember, name]
      | @constant v v' literal =>
          cases literal with
          | @equal v => cases v <;> simp only [convertMember, name]
          | closures => simp only [convertMember, name]
          -- A member of a scalar is refused, whichever scalar it is.
          | scalars _ scalar scalar' =>
              rw [convertMember_scalar frame path m scalar, convertMember_scalar frame path m' scalar']
      | _ => rfl

theorem convertConstant_eq (frame : Frame) (path : Path) {ty : Ty} {v v' : Value}
    (literal : SameUse ty v v') :
    convertConstant frame path ty v = convertConstant frame path ty v' := by
  unfold convertConstant
  cases hinlined : ty.isInlined with
  | true => rw [literal.eq_of_isInlined hinlined]
  | false => rw [literal.isScalar_eq]; rfl

/-- Interchangeable expressions become the same term and bind the same positions. -/
theorem convert_eq (frame : Frame) (path : Path) {a b : Expr} (h : Interchangeable models a b) :
    convert frame path a = convert frame path b := by
  induction a using Expr.inductionOnChildren generalizing path b with
  | step a ih =>
      rcases h.related with ⟨hty, hnodes⟩
      rcases a with ⟨i, ty, n⟩
      rcases b with ⟨j, ty', n'⟩
      cases hty
      -- The kinds that are not converted fail without a look at their children.
      simp only [Expr.children] at ih
      cases hnodes with
      | binary left right =>
          simp only [Node.children, List.forall_mem_cons] at ih
          rw [convert, convert, isInlineNull_eq left, isInlineNull_eq right, ih.1 _ left,
            ih.2.1 _ right]
      | @unary op method e e' operand =>
          simp only [Node.children, List.forall_mem_singleton] at ih
          cases op <;> simp only [convert, ih _ operand]
      | conditional test ifTrue ifFalse =>
          simp only [Node.children, List.forall_mem_cons] at ih
          rw [convert, convert, ih.1 _ test, ih.2.1 _ ifTrue, ih.2.2.1 _ ifFalse]
      | constant literal => exact convertConstant_eq frame path literal
      | member name object => exact convertMember_eq frame path name object
      | parameter => rfl
      | _ => rfl

theorem convertValue_eq (frame : Frame) (path : Path) {a b : Expr}
    (h : Interchangeable models a b) : convertValue frame path a = convertValue frame path b := by
  rw [convertValue, convertValue, convert_eq frame path h, h.related.1]

theorem convertValues_eq (frame : Frame) (path : Path) (index : Nat) {as bs : List Expr}
    (h : List.Forall₂ (Interchangeable models) as bs) :
    convertValues frame path index as = convertValues frame path index bs := by
  induction h generalizing index with
  | nil => rfl
  | cons hab _ ih =>
      rw [convertValues, convertValues, convertValue_eq frame _ hab, ih (index + 1)]

theorem convertAssigned_eq (frame : Frame) (path : Path) (index : Nat)
    {bs bs' : List (Binding Expr)}
    (h : List.Forall₂ (BindingsRelated (Interchangeable models)) bs bs') :
    convertAssigned frame path index bs = convertAssigned frame path index bs' := by
  induction h generalizing index with
  | nil => rfl
  | cons hb _ ih =>
      cases hb with
      | assign name value =>
          rw [convertAssigned, convertAssigned, convertValue_eq frame _ value, ih (index + 1), name]
      | nested => rfl
      | elements => rfl

/-! ## Selectors -/

/-- Quotes around interchangeable lambdas can be stripped. -/
theorem unquoted_eq {a b : Expr} (h : Interchangeable models a b) :
    a.quoteDepth = b.quoteDepth ∧ Interchangeable models a.unquoted b.unquoted := by
  induction a using Expr.unquoted.induct generalizing b with
  | case1 id ty method operand ih =>
      rcases h.related with ⟨-, hnodes⟩
      rcases b with ⟨j, ty', n'⟩
      cases hnodes with
      | unary inner =>
          rcases ih inner with ⟨hdepth, hunquoted⟩
          exact ⟨by rw [Expr.quoteDepth, Expr.quoteDepth, hdepth], hunquoted⟩
  | case2 a notQuote =>
      rcases h.related with ⟨-, hnodes⟩
      have notQuote' : ∀ id ty method operand, b = ⟨id, ty, .unary .quote method operand⟩ → False := by
        rintro id ty method operand rfl
        rcases a with ⟨i, t, n⟩
        cases hnodes with
        | unary => exact notQuote _ _ _ _ rfl
      rw [Expr.unquoted, Expr.unquoted, Expr.quoteDepth, Expr.quoteDepth]
      · exact ⟨rfl, h⟩
      all_goals assumption

/-- Interchangeable lambdas have the same parameters and interchangeable bodies. -/
theorem asLambda?_eq {a b : Expr} (h : Interchangeable models a b) :
    (a.asLambda? = none ∧ b.asLambda? = none) ∨
      ∃ params body body', a.asLambda? = some (params, body) ∧
        b.asLambda? = some (params, body') ∧ Interchangeable models body body' := by
  rcases unquoted_eq h with ⟨-, hunquoted⟩
  rcases hunquoted.related with ⟨-, hnodes⟩
  unfold Expr.asLambda?
  revert hnodes
  generalize a.unquoted.node = n
  generalize b.unquoted.node = n'
  intro hnodes
  cases hnodes with
  | lambda body => exact .inr ⟨_, _, _, rfl, rfl, body⟩
  | _ => exact .inl ⟨rfl, rfl⟩

/-- Interchangeable selectors have the same parameter and interchangeable bodies. -/
theorem asSelector?_eq {a b : Expr} (h : Interchangeable models a b) :
    (asSelector? a = none ∧ asSelector? b = none) ∨
      ∃ param body body', asSelector? a = some (param, body) ∧
        asSelector? b = some (param, body') ∧ Interchangeable models body body' := by
  unfold asSelector?
  rcases asLambda?_eq h with ⟨ha, hb⟩ | ⟨params, body, body', ha, hb, hbody⟩
  · rw [ha, hb]
    exact .inl ⟨rfl, rfl⟩
  · rw [ha, hb]
    match params with
    | [param] => exact .inr ⟨param, body, body', rfl, rfl, hbody⟩
    | [] => exact .inl ⟨rfl, rfl⟩
    | _ :: _ :: _ => exact .inl ⟨rfl, rfl⟩

theorem bodyPath_eq {a b : Expr} (h : Interchangeable models a b) (path : Path) :
    bodyPath a path = bodyPath b path := by
  rw [bodyPath, bodyPath, (unquoted_eq h).1]

namespace Compiler

theorem isElement_eq (param : Param) {a b : Expr} (h : Interchangeable models a b) :
    isElement param a = isElement param b := by
  rcases h.related with ⟨-, hnodes⟩
  rcases a with ⟨i, ty, n⟩
  rcases b with ⟨j, ty', n'⟩
  cases hnodes <;> rfl

theorem projection_eq (frame : Frame) (path : Path) {a b : Expr}
    (h : Interchangeable models a b) : projection frame path a = projection frame path b := by
  have hvalue := convertValue_eq frame path h
  rcases h.related with ⟨-, hnodes⟩
  rcases a with ⟨i, ty, n⟩
  rcases b with ⟨j, ty', n'⟩
  cases hnodes with
  | @construct c as as' ms ms' names args =>
      -- Members are known by name only, which still gives their number.
      have hlength : ms.length = ms'.length := by
        simpa using congrArg List.length names
      have hempty : ms.isEmpty = ms'.isEmpty := by
        cases ms <;> cases ms' <;> simp_all
      have htake := convertValues_eq frame path 0 (List.forall₂_take ms.length args)
      rw [hlength] at htake
      simp only [projection, hempty, hlength, hvalue, htake, names]
  | memberInit args bindings =>
      simp only [projection, args.length_eq, convertAssigned_eq frame path _ bindings]
  | _ => simp only [projection, hvalue]

theorem keys_eq (frame : Frame) (path : Path) {a b : Expr} (h : Interchangeable models a b) :
    keys frame path a = keys frame path b := by
  have hvalue := convertValue_eq frame path h
  rcases h.related with ⟨-, hnodes⟩
  rcases a with ⟨i, ty, n⟩
  rcases b with ⟨j, ty', n'⟩
  cases hnodes with
  | construct names args => exact convertValues_eq frame path 0 args
  | memberInit args bindings =>
      simp only [keys, args.length_eq, convertAssigned_eq frame path _ bindings]
  | _ => simp only [keys, hvalue]

theorem isExplicitConstruction_eq {a b : Expr} (h : Interchangeable models a b) :
    isExplicitConstruction a = isExplicitConstruction b := by
  rcases h.related with ⟨-, hnodes⟩
  rcases a with ⟨i, ty, n⟩
  rcases b with ⟨j, ty', n'⟩
  cases hnodes with
  | memberInit args bindings =>
      -- The check asks for the form of the bindings, not for their values.
      have hassign : ∀ {bs bs' : List (Binding Expr)},
          List.Forall₂ (BindingsRelated (Interchangeable models)) bs bs' →
            bs.isEmpty = bs'.isEmpty ∧ bs.any (!·.isAssign) = bs'.any (!·.isAssign) := by
        intro bs bs' hbs
        induction hbs with
        | nil => exact ⟨rfl, rfl⟩
        | cons hb _ ih =>
            refine ⟨rfl, ?_⟩
            rw [List.any_cons, List.any_cons, ih.2]
            cases hb <;> rfl
      rcases hassign bindings with ⟨hempty, hany⟩
      simp only [isExplicitConstruction, hempty, hany]
      cases args <;> rfl
  | _ => rfl

theorem checkKey_eq (kind : SortKind) {a b : Expr} (h : Interchangeable models a b) :
    checkKey kind a = checkKey kind b := by
  unfold checkKey
  rcases asLambda?_eq h with ⟨ha, hb⟩ | ⟨params, body, body', ha, hb, hbody⟩
  · rw [ha, hb]
  · simp only [ha, hb, isExplicitConstruction_eq hbody, hbody.related.1]

end Compiler

/-! ## Links -/

theorem kind_eq {a b : Expr} (h : Interchangeable models a b) : a.kind = b.kind :=
  h.related.2.kind_eq

theorem describe_eq {a b : Expr} (h : Interchangeable models a b) :
    Link.describe a = Link.describe b := by
  have hkind := kind_eq h
  rcases h.related with ⟨hty, hnodes⟩
  unfold Link.describe
  rw [hkind, hty]
  rcases a with ⟨i, ty, n⟩
  rcases b with ⟨j, ty', n'⟩
  cases hnodes <;> rfl

/-- Interchangeable links apply one operator to interchangeable chains and arguments. -/
theorem ofExpr?_eq {a b : Expr} (h : Interchangeable models a b) :
    (Link.ofExpr? a = none ∧ Link.ofExpr? b = none) ∨
      ∃ operator source source' argument argument',
        Link.ofExpr? a = some ⟨operator, source, argument⟩ ∧
          Link.ofExpr? b = some ⟨operator, source', argument'⟩ ∧
          Interchangeable models source source' ∧ Interchangeable models argument argument' := by
  rcases h.related with ⟨-, hnodes⟩
  rcases a with ⟨i, ty, n⟩
  rcases b with ⟨j, ty', n'⟩
  unfold Link.ofExpr?
  cases hnodes with
  | @call method _ _ _ _ object args =>
      cases object with
      | some _ => exact .inl ⟨rfl, rfl⟩
      | none =>
          cases args with
          | nil => exact .inl ⟨rfl, rfl⟩
          | cons hsource rest =>
              cases rest with
              | nil => exact .inl ⟨rfl, rfl⟩
              | cons hargument others =>
                  cases others with
                  | cons _ _ => exact .inl ⟨rfl, rfl⟩
                  | nil =>
                      cases hop : Operator.ofMethod? method with
                      | none => exact .inl (by simp [hop])
                      | some operator =>
                          exact .inr ⟨operator, _, _, _, _, by simp [hop], by simp [hop], hsource,
                            hargument⟩
  | _ => exact .inl ⟨rfl, rfl⟩

/-- Interchangeable nodes hold the same table, if they hold one. -/
theorem table_eq {a b : Expr} (h : Interchangeable models a b) (table : Table) :
    a.node = .constant (.table table) ↔ b.node = .constant (.table table) := by
  rcases h.related with ⟨-, hnodes⟩
  rcases a with ⟨i, ty, n⟩
  rcases b with ⟨j, ty', n'⟩
  cases hnodes with
  | constant literal =>
      cases literal with
      | equal => exact Iff.rfl
      | closures => simp
      | scalars _ scalar scalar' =>
          constructor
          · rintro ⟨⟩
            cases scalar
          · rintro ⟨⟩
            cases scalar'
  | _ => simp

theorem accepts_eq (rule : Rule) {a b : Expr} (h : Interchangeable models a b) :
    rule.accepts a = rule.accepts b := by
  cases rule with
  | table =>
      simp only [Rule.accepts]
      split
      · next table ha => rw [(table_eq h table).1 ha]
      · next ha =>
          split
          · next table hb => exact absurd ((table_eq h table).2 hb) (ha table)
          · rfl
  | _ =>
      simp only [Rule.accepts]
      rcases ofExpr?_eq h with ⟨ha, hb⟩ | ⟨operator, source, source', argument, argument', ha, hb, -⟩
      · rw [ha, hb]
      · rw [ha, hb]
        rfl

/-! ## Contexts -/

namespace Compiler

theorem addPredicate_eq (ctx : Context) (path : Path) {a b : Expr}
    (h : Interchangeable models a b) : addPredicate ctx a path = addPredicate ctx b path := by
  unfold addPredicate
  rcases asSelector?_eq h with ⟨ha, hb⟩ | ⟨param, body, body', ha, hb, hbody⟩
  · simp only [ha, hb, kind_eq h]
  · simp only [ha, hb, bodyPath_eq h, convert_eq _ _ hbody]

theorem addSort_eq (ctx : Context) (kind : SortKind) (path : Path) {a b : Expr}
    (h : Interchangeable models a b) : addSort ctx kind a path = addSort ctx kind b path := by
  unfold addSort
  rcases asSelector?_eq h with ⟨ha, hb⟩ | ⟨param, body, body', ha, hb, hbody⟩
  · simp only [ha, hb, kind_eq h]
  · simp only [ha, hb, bodyPath_eq h, keys_eq _ _ hbody]

theorem addBound_eq (ctx : Context) (isTake : Bool) (path : Path) {a b : Expr}
    (h : Interchangeable models a b) : addBound ctx isTake a path = addBound ctx isTake b path := by
  unfold addBound
  simp only [convert_eq _ _ h]

theorem startTable_eq {c c' : Compiler} (schema : c.schema = c'.schema) {a b : Expr}
    (h : Interchangeable models a b) : c.startTable a = c'.startTable b := by
  unfold startTable
  rw [schema]
  split
  · next table ha => rw [(table_eq h table).1 ha]
  · next ha =>
      split
      · next table hb => exact absurd ((table_eq h table).2 hb) (ha table)
      · rw [kind_eq h]

section Spine

variable {c c' : Compiler} {e e' : Expr} {path : Path}

theorem argPath_eq (spine : c.root.spinePath? e = some path)
    (spine' : c'.root.spinePath? e' = some path) : c.argPath e 0 = c'.argPath e' 0 := by
  rw [argPath_of_spine spine, argPath_of_spine spine']

theorem project_eq (spine : c.root.spinePath? e = some path)
    (spine' : c'.root.spinePath? e' = some path) (ctx : Context) (param : Param)
    {argument argument' body body' : Expr} (hargument : Interchangeable models argument argument')
    (hbody : Interchangeable models body body') :
    c.project ctx e argument param body = c'.project ctx e' argument' param body' := by
  unfold project
  simp only [isElement_eq param hbody, argPath_eq spine spine', bodyPath_eq hargument,
    projection_eq _ _ hbody, hbody.related.1]

/-- A rule extends equal contexts to equal contexts, or fails in the same way. -/
theorem extend_eq (rule : Rule) (schema : c.schema = c'.schema)
    (spine : c.root.spinePath? e = some path) (spine' : c'.root.spinePath? e' = some path)
    (h : Interchangeable models e e') {below below' : Unit → Except CompileError Context}
    (hbelow : below () = below' ()) : c.extend rule e below = c'.extend rule e' below' := by
  have harg := argPath_eq spine spine'
  unfold extend
  rcases ofExpr?_eq h with
    ⟨hl, hr⟩ | ⟨operator, source, source', argument, argument', hl, hr, -, hargument⟩
  · rw [hl, hr]
    cases rule with
    | table => exact startTable_eq schema h
    | _ => simp only [kind_eq h]
  · rw [hl, hr]
    cases rule with
    | table => exact startTable_eq schema h
    | filter =>
        simp only [extendFilter, hbelow, harg, addPredicate_eq _ _ hargument]
    | select =>
        simp only [extendSelect]
        rcases asSelector?_eq hargument with ⟨ha, hb⟩ | ⟨param, body, body', ha, hb, hbody⟩
        · simp only [ha, hb, kind_eq (unquoted_eq hargument).2]
        · simp only [ha, hb, hbelow, project_eq spine spine' _ param hargument hbody]
    | sort =>
        simp only [extendSort, checkKey_eq _ hargument, hbelow, harg, kind_eq h,
          addSort_eq _ _ _ hargument]
    | page =>
        simp only [extendPage, hbelow, harg, addBound_eq _ _ _ hargument]

/-- Interchangeable links are handed to the same rule. -/
theorem dispatch_eq (rules : c.rules = c'.rules) (schema : c.schema = c'.schema)
    (spine : c.root.spinePath? e = some path) (spine' : c'.root.spinePath? e' = some path)
    (h : Interchangeable models e e') {below below' : Unit → Except CompileError Context}
    (hbelow : below () = below' ()) : c.dispatch e below = c'.dispatch e' below' := by
  have hfind : c.findRule? e = c'.findRule? e' := by
    unfold findRule?
    rw [rules]
    exact congrArg (List.find? · c'.rules) (funext fun rule => accepts_eq rule h)
  unfold dispatch
  rw [hfind, describe_eq h]
  split
  · exact extend_eq _ schema spine spine' h hbelow
  · rfl

/-- Interchangeable chains at the same depth of their templates build equal contexts, or fail in the
same way. -/
theorem build_eq (rules : c.rules = c'.rules) (schema : c.schema = c'.schema) (k : Nat)
    (position : c.root.resolve? (List.replicate k 0) = some e)
    (position' : c'.root.resolve? (List.replicate k 0) = some e')
    (h : Interchangeable models e e') : c.build e = c'.build e' := by
  have spine := Expr.spinePath?_of_resolve? k position
  have spine' := Expr.spinePath?_of_resolve? k position'
  induction e using chain_induction generalizing k e' with
  | link e link call ih =>
      rcases ofExpr?_eq h with
        ⟨noCall, -⟩ | ⟨operator, source, source', argument, argument', hl, hr, hsource, -⟩
      · rw [call] at noCall
        cases noCall
      -- Both chains continue with sources that are interchangeable one level further down.
      · cases call.symm.trans hl
        have below := resolve?_source_of_spine k hl position
        have below' := resolve?_source_of_spine k hr position'
        have hbelow : c.build source = c'.build source' :=
          ih (k + 1) below below' hsource (Expr.spinePath?_of_resolve? _ below)
            (Expr.spinePath?_of_resolve? _ below')
        rw [build_of_link hl, build_of_link hr]
        exact dispatch_eq rules schema spine spine' h hbelow
  | other e noCall =>
      rcases ofExpr?_eq h with ⟨-, noCall'⟩ | ⟨_, _, _, _, _, hl, -⟩
      · rw [build_of_noLink noCall, build_of_noLink noCall']
        exact dispatch_eq rules schema spine spine' h (by rw [describe_eq h])
      · rw [noCall] at hl
        cases hl

end Spine

end Compiler

/-- Interchangeable templates compile to equal queries, or fail in the same way. -/
theorem query_eq_of_interchangeable (rules : List Rule) (schema : Schema) {a b : Expr}
    (h : Interchangeable models a b) :
    (⟨rules, schema, a⟩ : Compiler).query = (⟨rules, schema, b⟩ : Compiler).query := by
  have hbuild : (⟨rules, schema, a⟩ : Compiler).build a = (⟨rules, schema, b⟩ : Compiler).build b :=
    Compiler.build_eq rfl rfl 0 a.resolve?_nil b.resolve?_nil h
  simp only [Compiler.query, hbuild]

/-! ## Plans -/

/-- A plan holds the query that its template compiles to. -/
theorem map_query_compile (serial : Nat) (rules : List Rule) (schema : Schema) (t : Expr) :
    (Plan.compile serial rules schema t).map (·.query) =
      (⟨rules, schema, t⟩ : Compiler).query := by
  unfold Plan.compile
  cases hquery : (⟨rules, schema, t⟩ : Compiler).query with
  | error e => simp [hquery, bind, Except.bind, Except.map]
  | ok query => simp [hquery, bind, Except.bind, Except.map, pure, Except.pure]

/-- Every literal of a namesakes chain fits its type. -/
theorem Sample.literalsFit_namesakes (age : Int64) (env : Env Value) :
    LiteralsFit (fun _ => Sample.person) (Sample.namesakes age env) := by
  have table : LiteralsFit (fun _ => Sample.person) ⟨0, .table Sample.element,
      .constant (.table ⟨Sample.person, Sample.element⟩)⟩ := .literal rfl
  have x : LiteralsFit (fun _ => Sample.person) ⟨1, Sample.element, .parameter "x"⟩ :=
    .node (by simp) (by simp [Node.children])
  have limit : LiteralsFit (fun _ => Sample.person) ⟨2, .int64, .constant (.long age)⟩ :=
    .literal rfl
  have captured : LiteralsFit (fun _ => Sample.person) ⟨3, .environment, .constant (.closure env)⟩ :=
    .literal ⟨env, rfl⟩
  refine .node (by simp) (List.forall_mem_cons.2 ⟨?_, List.forall_mem_singleton.2 limit⟩)
  refine .node (by simp) (List.forall_mem_cons.2 ⟨table, List.forall_mem_singleton.2 ?_⟩)
  refine .node (by simp) (List.forall_mem_singleton.2 ?_)
  refine .node (by simp) (List.forall_mem_singleton.2 ?_)
  refine .node (by simp) (List.forall_mem_cons.2 ⟨?_, List.forall_mem_singleton.2 ?_⟩)
  · exact .node (by simp) (List.forall_mem_cons.2
      ⟨.node (by simp) (List.forall_mem_singleton.2 x), List.forall_mem_singleton.2 limit⟩)
  · exact .node (by simp) (List.forall_mem_cons.2
      ⟨.node (by simp) (List.forall_mem_singleton.2 x),
        List.forall_mem_singleton.2 (.node (by simp) (List.forall_mem_singleton.2 captured))⟩)

/-- Alike templates whose literals fit their types compile with any rules to the same query, or fail
with the same error: no bound literal and no captured value reaches the query. -/
theorem compile_same_outcome (rules : List Rule) (schema : Schema) {a b : Expr}
    (alike : a.alike b = true) (fits : LiteralsFit models a) (fits' : LiteralsFit models b)
    (serial serial' : Nat) :
    (Plan.compile serial rules schema a).map (·.query) =
      (Plan.compile serial' rules schema b).map (·.query) := by
  rw [map_query_compile, map_query_compile]
  exact query_eq_of_interchangeable rules schema ⟨alike, fits, fits'⟩

/-- Two namesakes chains differ in a bound literal and in a captured environment. -/
theorem namesakes_same_outcome :
    let thirty := Sample.namesakes 30 (.ofList 0 [("name", .text "Ada")])
    let forty := Sample.namesakes 40 (.ofList 1 [("name", .text "Grace")])
    thirty.alike forty = true ∧ LiteralsFit (fun _ => Sample.person) thirty ∧
      LiteralsFit (fun _ => Sample.person) forty ∧
      (Plan.compile 0 Rule.all Sample.schema thirty).map (·.query) =
        (Plan.compile 1 Rule.all Sample.schema forty).map (·.query) := by
  intro thirty forty
  have alike : thirty.alike forty = true := by decide +kernel
  have fits : LiteralsFit (fun _ => Sample.person) thirty := Sample.literalsFit_namesakes _ _
  have fits' : LiteralsFit (fun _ => Sample.person) forty := Sample.literalsFit_namesakes _ _
  exact ⟨alike, fits, fits', compile_same_outcome _ _ alike fits fits' 0 1⟩

end Compile
end QueryPlan
