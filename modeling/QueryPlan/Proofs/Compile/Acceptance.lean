import QueryPlan.Proofs.Compile.Registry

/-!
# Acceptance — the templates that compile

`Accepted schema e outline` is the input language of a complete registry as a grammar: one rule for
each group of operators, over `Convertible` for the bodies that become a single term, `Sortable` for
sort keys and `Selectable` for projections.  The grammar knows of an element only its outline, the
names of its members or that it is a scalar, and mentions no SQL, no paths, no slots and no errors.

Successful compilations follow the grammar, which is read off their derivations (`Builds`).  For the
converse every function of the compiler is shown to return a result (`Yields`), by induction on the
grammar.
-/

namespace QueryPlan

/-- The operators that sort. -/
theorem SortKind.exists_ofOperator?_iff {op : Operator} :
    (∃ kind, ofOperator? op = some kind) ↔
      op ∈ [.orderBy, .orderByDescending, .thenBy, .thenByDescending] := by
  cases op <;> simp [ofOperator?]

/-! ## Outlines -/

namespace Sql

/-- What is known of an element whatever its SQL: that it is a scalar, or the names of its members. -/
inductive Outline where
  | scalar
  | members (names : List String)

namespace Shape

/-- The outline of a shape. -/
def outline : Shape → Outline
  | members ms => .members (ms.map (·.1))
  | scalar _ => .scalar

@[simp] theorem outline_through (scope : Nat) (shape : Shape) :
    (shape.through scope).outline = shape.outline := by
  cases shape with
  | members ms => simp [through, outline]
  | scalar term => rfl

theorem outline_eq_scalar {shape : Shape} : shape.outline = .scalar ↔ ∃ τ, shape = .scalar τ := by
  cases shape <;> simp [outline]

/-- A shape has the members that its outline names. -/
theorem exists_member?_iff {shape : Shape} {name : String} :
    (∃ τ, shape.member? name = some τ) ↔ ∃ names, shape.outline = .members names ∧ name ∈ names := by
  cases shape with
  | members ms =>
      simp only [member?, outline, Outline.members.injEq, exists_eq_left', List.mem_map]
      rw [← Option.isSome_iff_exists, Option.isSome_map, List.find?_isSome]
      simp
  | scalar term => simp [member?, outline]

end Shape

/-- Closing a scope keeps the outline of the elements. -/
@[simp] theorem Context.outline_wrapIf (ctx : Context) (condition : Bool) :
    (ctx.wrapIf condition).shape.outline = ctx.shape.outline := by
  cases condition <;> simp [wrapIf, wrap]

end Sql

namespace Compile

open Sql (Context Outline Shape Slot Term)

/-! ## The grammar -/

/-- The expressions that become a term, given the outline of the element and the parameter, if any,
that stands for it. -/
inductive Convertible (outline : Outline) (param : Option String) : Expr → Prop where
  /-- The element itself, if it is a scalar. -/
  | element {id : Nat} {ty : Ty} {name : String} (bound : param = some name)
      (scalar : outline = .scalar) : Convertible outline param ⟨id, ty, .parameter name⟩
  /-- A member of the element. -/
  | field {id id' : Nat} {ty ty' : Ty} {m : Member} {name : String} {names : List String}
      (bound : param = some name) (members : outline = .members names) (known : m.name ∈ names) :
      Convertible outline param ⟨id, ty, .member m (some ⟨id', ty', .parameter name⟩)⟩
  /-- A captured variable, whether or not the environment binds it. -/
  | captured {id id' : Nat} {ty ty' : Ty} {m : Member} {env : Env Value} :
      Convertible outline param ⟨id, ty, .member m (some ⟨id', ty', .constant (.closure env)⟩)⟩
  | literal {id : Nat} {ty : Ty} {value : Value}
      (usable : ty.isInlined = true ∨ value.isScalar = true) :
      Convertible outline param ⟨id, ty, .constant value⟩
  | binary {id : Nat} {ty : Ty} {op : BinaryOp} {method : Option Method} {left right : Expr}
      {conversion : Option Expr} (supported : op ∉ [.power, .arrayIndex, .leftShift, .rightShift])
      (leftOk : Convertible outline param left) (rightOk : Convertible outline param right) :
      Convertible outline param ⟨id, ty, .binary op method left right conversion⟩
  | unary {id : Nat} {ty : Ty} {op : UnaryOp} {method : Option Method} {operand : Expr}
      (supported : op ≠ .arrayLength) (operandOk : Convertible outline param operand) :
      Convertible outline param ⟨id, ty, .unary op method operand⟩
  | conditional {id : Nat} {ty : Ty} {test ifTrue ifFalse : Expr}
      (testOk : Convertible outline param test) (trueOk : Convertible outline param ifTrue)
      (falseOk : Convertible outline param ifFalse) :
      Convertible outline param ⟨id, ty, .conditional test ifTrue ifFalse⟩

/-- Plain assignments of values to members. -/
def assignments (fields : List (Member × Expr)) : List (Binding Expr) :=
  fields.map fun field => .assign field.1 field.2

/-- The selector bodies that serve as sort keys: a value, or an object that is constructed from
values, by arguments or by assignments but not by both. -/
inductive Sortable (outline : Outline) (param : String) : Expr → Prop where
  | value {body : Expr} (value : Convertible outline (some param) body) :
      Sortable outline param body
  | construct {id : Nat} {ty : Ty} {construction : Construction Expr}
      (values : ∀ arg ∈ construction.args, Convertible outline (some param) arg) :
      Sortable outline param ⟨id, ty, .construct construction⟩
  | memberInit {id : Nat} {ty : Ty} {construction : Construction Expr} {fields : List (Member × Expr)}
      (noArgs : construction.args = []) (assigned : fields ≠ [])
      (values : ∀ field ∈ fields, Convertible outline (some param) field.2) :
      Sortable outline param ⟨id, ty, .memberInit construction (assignments fields)⟩

/-- The selector bodies that project, with the outline of what they project to. -/
inductive Selectable (outline : Outline) (param : String) : Expr → Outline → Prop where
  /-- The element itself, whatever it is. -/
  | element {id : Nat} {ty : Ty} : Selectable outline param ⟨id, ty, .parameter param⟩ outline
  /-- Named members, each with the argument in its place; further arguments are ignored. -/
  | construct {id : Nat} {ty : Ty} {construction : Construction Expr}
      (named : construction.members ≠ [])
      (values : ∀ field ∈ construction.members.zip construction.args,
        Convertible outline (some param) field.2) :
      Selectable outline param ⟨id, ty, .construct construction⟩
        (.members ((construction.members.zip construction.args).map (·.1.name)))
  /-- Members assigned to; arguments of the constructor are ignored. -/
  | memberInit {id : Nat} {ty : Ty} {construction : Construction Expr} {fields : List (Member × Expr)}
      (values : ∀ field ∈ fields, Convertible outline (some param) field.2) :
      Selectable outline param ⟨id, ty, .memberInit construction (assignments fields)⟩
        (.members (fields.map (·.1.name)))
  | value {body : Expr} (value : Convertible outline (some param) body) :
      Selectable outline param body .scalar

/-- The arguments that an operator takes on elements of an outline, with the outline it leaves. -/
inductive Applies (outline : Outline) : Operator → Expr → Outline → Prop where
  | filter {argument body : Expr} {param : Param}
      (selector : argument.unquoted.node = .lambda [param] body)
      (predicate : Convertible outline (some param.name) body) :
      Applies outline .filter argument outline
  | select {argument body : Expr} {param : Param} {outline' : Outline}
      (selector : argument.unquoted.node = .lambda [param] body)
      (projection : Selectable outline param.name body outline') :
      Applies outline .select argument outline'
  | sort {op : Operator} {argument body : Expr} {param : Param}
      (sorts : op ∈ [.orderBy, .orderByDescending, .thenBy, .thenByDescending])
      (selector : argument.unquoted.node = .lambda [param] body)
      (key : Sortable outline param.name body) : Applies outline op argument outline
  | bound {op : Operator} {argument : Expr} (bounds : op ∈ [.take, .skip])
      (count : Convertible outline none argument) : Applies outline op argument outline

/-- The chains that compile under a schema, with the outline of their elements. -/
inductive Accepted (schema : Schema) : Expr → Outline → Prop where
  | table {id : Nat} {ty : Ty} {table : Table} {source : TableSource}
      (resolved : schema.tableSource? table.model = some source) :
      Accepted schema ⟨id, ty, .constant (.table table)⟩ (.members (table.model.fields.map (·.name)))
  | call {id : Nat} {ty : Ty} {op : Operator} {source argument : Expr} {outline outline' : Outline}
      (sourceOk : Accepted schema source outline) (applies : Applies outline op argument outline') :
      Accepted schema ⟨id, ty, .call op.method none [source, argument]⟩ outline'

/-! ## Compiled templates are accepted -/

/-- An inlined null is a literal of an inlined type. -/
theorem Convertible.of_isInlineNull {outline : Outline} {param : Option String} {e : Expr}
    (h : isInlineNull e = true) : Convertible outline param e := by
  rcases e with ⟨id, ty, node⟩
  cases node with
  | constant value =>
      simp only [isInlineNull, Bool.and_eq_true] at h
      exact .literal (.inl h.1)
  | _ => simp [isInlineNull, Expr.asConstant?] at h

theorem supported_of_nullTest? {op : BinaryOp} {negated : Bool} (h : nullTest? op = some negated) :
    op ∉ [.power, .arrayIndex, .leftShift, .rightShift] := by
  cases op <;> simp_all [nullTest?]

/-- The operators without an SQL form are those that are not supported. -/
theorem exists_sqlOp?_iff {op : BinaryOp} {logical : Bool} :
    (∃ sqlOp, sqlOp? op logical = some sqlOp) ↔
      op ∉ [.power, .arrayIndex, .leftShift, .rightShift] := by
  cases op <;> simp [sqlOp?]

section Sound

variable {slots : List Slot} {frame : Frame} {path : Path}

/-- Whatever became a term is convertible. -/
theorem convertible_of_converts {e : Expr} {τ : Term} (h : Converts slots frame path e τ) :
    Convertible frame.shape.outline frame.param e := by
  induction h with
  | element bound shape => exact .element bound (Shape.outline_eq_scalar.2 ⟨_, shape⟩)
  | field bound found =>
      rcases Shape.exists_member?_iff.1 ⟨_, found⟩ with ⟨names, members, known⟩
      exact .field bound members known
  | captured => exact .captured
  | inlined inlined => exact .literal (.inl inlined)
  | literal _ scalar => exact .literal (.inr scalar)
  | nullRight test null _ ih =>
      exact .binary (supported_of_nullTest? test) ih (.of_isInlineNull null)
  | nullLeft test _ null _ ih =>
      exact .binary (supported_of_nullTest? test) (.of_isInlineNull null) ih
  | binary _ operator _ _ ihl ihr => exact .binary (exists_sqlOp?_iff.1 ⟨_, operator⟩) ihl ihr
  | not _ ih => exact .unary (by simp) ih
  | negate _ ih => exact .unary (by simp) ih
  | transparent wrapper _ ih =>
      refine .unary ?_ ih
      rintro rfl
      simp at wrapper
  | conditional _ _ _ iht iha ihb => exact .conditional iht iha ihb

theorem convertible_of_convertsAll {index : Nat} {values : List Expr} {terms : List Term}
    (h : ConvertsAll slots frame path index values terms) :
    ∀ e ∈ values, Convertible frame.shape.outline frame.param e := by
  induction h with
  | nil => simp
  | cons head _ ih => exact List.forall_mem_cons.2 ⟨convertible_of_converts head, ih⟩

theorem assignments?_eq_some {bindings : List (Binding Expr)} {fields : List (Member × Expr)} :
    assignments? bindings = some fields ↔ bindings = assignments fields := by
  fun_induction assignments? bindings generalizing fields with
  | case1 => cases fields <;> simp [assignments]
  | case2 m value rest ih =>
      cases fields with
      | nil => simp [assignments]
      | cons field others =>
          simp only [Option.map_eq_some_iff, ih, assignments, List.map_cons, List.cons.injEq,
            Binding.assign.injEq]
          grind
  | case3 b rest notAssign =>
      cases fields with
      | nil => simp [assignments]
      | cons field others =>
          simp only [assignments, List.map_cons, List.cons.injEq, reduceCtorEq, false_iff, not_and]
          intro heq
          exact absurd heq (notAssign field.1 field.2)

section Zip

variable {α β γ : Type} {as : List α} {bs : List β}

/-- The second components of pairs are those entries that have a partner. -/
theorem forall_mem_zip {P : β → Prop} :
    (∀ pair ∈ as.zip bs, P pair.2) ↔ ∀ b ∈ bs.take as.length, P b := by
  rw [← List.forall_mem_map (f := Prod.snd)]
  induction as generalizing bs with
  | nil => simp
  | cons a as ih => cases bs <;> simp_all

/-- The first components of pairs depend on the number of partners only. -/
theorem map_fst_zip_eq {cs : List γ} (h : bs.length = (cs.take as.length).length) :
    (as.zip bs).map (·.1) = (as.zip cs).map (·.1) := by
  induction as generalizing bs cs with
  | nil => simp
  | cons a as ih =>
      cases bs <;> cases cs <;> simp at h ⊢
      exact ih (by simpa using h)

end Zip

/-- Terms for the arguments that have a member are named by these members. -/
theorem outline_construct {construction : Construction Expr} {terms : List Term}
    (h : terms.length = (construction.args.take construction.members.length).length) :
    ((construction.members.map (·.name)).zip terms).map (·.1) =
      (construction.members.zip construction.args).map (·.1.name) := by
  have hpairs : ((construction.members.map (·.name)).zip terms).map (·.1) =
      ((construction.members.map (·.name)).zip construction.args).map (·.1) :=
    map_fst_zip_eq (by simpa using h)
  rw [hpairs, List.zip_map_left, List.map_map]
  rfl

theorem sortable_of_keyed {body : Expr} {terms : List Term} {param : String}
    (bound : frame.param = some param) (allowed : Compiler.isExplicitConstruction body = false)
    (h : Keyed slots frame path body terms) : Sortable frame.shape.outline param body := by
  cases h with
  | construct values =>
      exact .construct fun arg harg => bound ▸ convertible_of_convertsAll values arg harg
  | @memberInit id ty construction bindings fields terms assigned values =>
      rw [assignments?_eq_some] at assigned
      subst assigned
      -- The check of keys leaves initialisers without arguments and with some assignment.
      simp only [Compiler.isExplicitConstruction, Bool.or_eq_false_iff, Bool.not_eq_false',
        List.isEmpty_iff] at allowed
      have hvalues := convertible_of_convertsAll values
      refine .memberInit allowed.1.1 ?_ fun field hfield => ?_
      · rintro rfl
        simp [assignments] at allowed
      · exact bound ▸ hvalues field.2 (List.mem_map_of_mem hfield)
  | scalar value => exact .value (bound ▸ convertible_of_converts value)

/-- A projection to a shape is one to its outline. -/
theorem selectable_of_projects {body : Expr} {shape : Shape} {param : String}
    (bound : frame.param = some param) (h : Projects slots frame path body shape) :
    Selectable frame.shape.outline param body shape.outline := by
  cases h with
  | construct named values =>
      rw [Shape.outline, outline_construct values.length_eq]
      refine .construct (by simpa using named) (forall_mem_zip.2 fun arg harg => ?_)
      exact bound ▸ convertible_of_convertsAll values arg harg
  | @memberInit id ty construction bindings fields terms assigned values =>
      rw [assignments?_eq_some] at assigned
      subst assigned
      have hnames : ((fields.map (·.1.name)).zip terms).map (·.1) = fields.map (·.1.name) :=
        List.map_fst_zip (by simp [values.length_eq])
      rw [Shape.outline, hnames]
      refine .memberInit fun field hfield => ?_
      exact bound ▸ convertible_of_convertsAll values field.2 (List.mem_map_of_mem hfield)
  | scalar value => exact .value (bound ▸ convertible_of_converts value)

end Sound

namespace Compiler

theorem isElement_iff {param : Param} {body : Expr} :
    isElement param body = true ↔ body.node = .parameter param.name := by
  unfold isElement
  split
  · next name hnode => simp [hnode]
  · next hnode => simpa using hnode param.name

end Compiler

/-- A link that extends a context applies its operator. -/
theorem applies_of_extends {slots : List Slot} {path : Path} {link : Link} {below ctx : Context}
    (h : Extends slots path link below ctx) :
    Applies below.shape.outline link.operator link.argument ctx.shape.outline := by
  cases h with
  | filter op selector closed predicate =>
      have convertible := convertible_of_converts predicate
      rw [closed, Context.outline_wrapIf] at convertible ⊢
      rw [op]
      exact .filter (asSelector?_eq_some.1 selector) convertible
  | @identity param body op selector element =>
      rcases body with ⟨id, ty, node⟩
      cases Compiler.isElement_iff.1 element
      rw [op]
      exact .select (asSelector?_eq_some.1 selector) .element
  | select op selector notElement projected =>
      rw [op]
      exact .select (asSelector?_eq_some.1 selector) (selectable_of_projects rfl projected)
  | sort op selector allowed closed keyed =>
      have sortable := sortable_of_keyed rfl allowed keyed
      rw [closed, Context.outline_wrapIf] at sortable ⊢
      exact .sort (SortKind.exists_ofOperator?_iff.1 ⟨_, op⟩) (asSelector?_eq_some.1 selector) sortable
  | take op closed bound | skip op closed bound =>
      have convertible := convertible_of_converts bound
      rw [closed, Context.outline_wrapIf] at convertible ⊢
      exact .bound (by simp [op]) convertible

/-- The elements of a table have the fields of its model. -/
theorem outline_ofSource {schema : Schema} {table : Table} {source : TableSource}
    (resolved : schema.tableSource? table.model = some source) :
    (Context.ofSource source table.element).shape.outline =
      .members (table.model.fields.map (·.name)) := by
  simp [Context.ofSource, Shape.outline, Function.comp_def, model_of_tableSource resolved]

/-- A chain that builds a context is accepted with the outline of its elements. -/
theorem accepted_of_builds {schema : Schema} {slots : List Slot} {path : Path} {e : Expr}
    {ctx : Context} (h : Builds schema slots path e ctx) : Accepted schema e ctx.shape.outline := by
  induction h with
  | @table path e table source literal resolved =>
      rcases e with ⟨id, ty, node⟩
      cases literal
      rw [outline_ofSource resolved]
      exact .table resolved
  | link call _ step ih =>
      rcases Link.ofExpr?_eq_some.1 call with ⟨id, ty, m, rfl, hm⟩
      rw [Operator.ofMethod?_eq_some.1 hm]
      exact .call ih (applies_of_extends step)

/-! ## Accepted templates compile -/

/-- A fallible step that returns a result with a property. -/
structure Yields {α : Type} (result : Except CompileError α) (Q : α → Prop) : Prop where
  ok : ∃ a, result = .ok a ∧ Q a

/-- A conversion that does, whatever the slots. -/
structure Conversion.Yields {α : Type} (conversion : Conversion α) (Q : α → Prop) : Prop where
  run : ∀ slots, Compile.Yields (conversion.run slots) fun r => Q r.1

namespace Yields

variable {α β : Type} {Q : α → Prop} {R : β → Prop}

theorem pure {a : α} (h : Q a) : Yields (.ok a) Q :=
  ⟨a, rfl, h⟩

theorem mono {m : Except CompileError α} {Q' : α → Prop} (h : Yields m Q)
    (weaker : ∀ a, Q a → Q' a) : Yields m Q' := by
  rcases h.ok with ⟨a, rfl, ha⟩
  exact .pure (weaker a ha)

theorem bind {m : Except CompileError α} {f : α → Except CompileError β} (hm : Yields m Q)
    (hf : ∀ a, Q a → Yields (f a) R) : Yields (m >>= f) R := by
  rcases hm.ok with ⟨a, rfl, ha⟩
  exact hf a ha

/-- A conversion leaves all of the context but its slots. -/
theorem converting {ctx : Context} {conversion : Conversion α} (h : conversion.Yields Q) :
    Yields (Compile.converting ctx conversion) fun r => Q r.1 ∧ ∃ slots, r.2 = { ctx with slots } :=
  (h.run ctx.slots).bind fun r hr => .pure ⟨hr, r.2, rfl⟩

end Yields

namespace Conversion.Yields

variable {α β : Type} {Q : α → Prop} {R : β → Prop}

theorem pure {a : α} (h : Q a) : Yields (Pure.pure a : Conversion α) Q :=
  ⟨fun _ => .pure h⟩

theorem bind {m : Conversion α} {f : α → Conversion β} (hm : m.Yields Q)
    (hf : ∀ a, Q a → (f a).Yields R) : (m >>= f).Yields R := by
  constructor
  intro slots
  rw [StateT.run_bind]
  exact (hm.run slots).bind fun r hr => (hf r.1 hr).run r.2

theorem mono {m : Conversion α} {Q' : α → Prop} (h : m.Yields Q) (weaker : ∀ a, Q a → Q' a) :
    m.Yields Q' :=
  ⟨fun slots => (h.run slots).mono fun r hr => weaker r.1 hr⟩

theorem bindSlot (path : Path) (source : Sql.SlotSource) :
    Yields (Compile.bindSlot path source) fun _ => True :=
  ⟨fun _ => .pure trivial⟩

end Conversion.Yields

section Complete

variable {frame : Frame}

theorem convert_yields {e : Expr} {path : Path}
    (h : Convertible frame.shape.outline frame.param e) :
    (convert frame path e).Yields fun _ => True := by
  induction h generalizing path with
  | element bound scalar =>
      rcases Shape.outline_eq_scalar.1 scalar with ⟨τ, shape⟩
      simp only [convert, convertElement, if_pos bound, shape]
      exact .pure trivial
  | field bound members known =>
      rcases Shape.exists_member?_iff.2 ⟨_, members, known⟩ with ⟨τ, found⟩
      simp only [convert, convertMember, if_pos bound, found]
      exact .pure trivial
  | captured => exact .bindSlot _ _
  | literal usable =>
      simp only [convert, convertConstant]
      split
      · exact .pure trivial
      · next notInlined =>
          rw [if_pos (usable.resolve_left notInlined)]
          exact .bindSlot _ _
  | @binary id ty op method left right conversion supported _ _ ihl ihr =>
      rw [convert]
      -- A null test converts one operand only; it needs no operator of its own.
      split
      · exact ihl.bind fun _ _ => .pure trivial
      · exact ihr.bind fun _ _ => .pure trivial
      · rcases exists_sqlOp?_iff.2 supported with ⟨sqlOp, operator⟩
        rw [operator]
        exact ihl.bind fun _ _ => ihr.bind fun _ _ => .pure trivial
  | @unary id ty op method operand supported _ ih =>
      cases op with
      | not | negate =>
          rw [convert]
          exact ih.bind fun _ _ => .pure trivial
      | convert | quote | typeAs | unaryPlus =>
          rw [convert]
          exact ih
      | arrayLength => exact absurd rfl supported
  | conditional _ _ _ iht iha ihb =>
      rw [convert]
      exact iht.bind fun _ _ => iha.bind fun _ _ => ihb.bind fun _ _ => .pure trivial

theorem convertValue_yields {e : Expr} {path : Path}
    (h : Convertible frame.shape.outline frame.param e) :
    (convertValue frame path e).Yields fun _ => True :=
  (convert_yields h).bind fun _ _ => .pure trivial

theorem convertValues_yields {values : List Expr} {path : Path} {index : Nat}
    (h : ∀ e ∈ values, Convertible frame.shape.outline frame.param e) :
    (convertValues frame path index values).Yields fun terms => terms.length = values.length := by
  induction values generalizing index with
  | nil => exact .pure rfl
  | cons e rest ih =>
      rw [List.forall_mem_cons] at h
      exact (convertValue_yields h.1).bind fun _ _ => (ih h.2).bind fun terms hterms =>
        .pure (congrArg (· + 1) hterms)

theorem convertAssigned_yields {fields : List (Member × Expr)} {path : Path} {index : Nat}
    (h : ∀ field ∈ fields, Convertible frame.shape.outline frame.param field.2) :
    (convertAssigned frame path index (assignments fields)).Yields fun assigned =>
      assigned.map (·.1) = fields.map (·.1.name) := by
  induction fields generalizing index with
  | nil => exact .pure rfl
  | cons field rest ih =>
      rw [List.forall_mem_cons] at h
      exact (convertValue_yields h.1).bind fun _ _ => (ih h.2).bind fun others hothers =>
        .pure (congrArg (field.1.name :: ·) hothers)

theorem keys_yields {body : Expr} {path : Path} {param : String} (bound : frame.param = some param)
    (h : Sortable frame.shape.outline param body) :
    (Compiler.keys frame path body).Yields fun _ => True := by
  cases h with
  | value value =>
      rw [← bound] at value
      -- No construction is convertible, so a value is the only key.
      have hkeys : Compiler.keys frame path body = do return [← convertValue frame path body] := by
        cases value <;> rfl
      rw [hkeys]
      exact (convertValue_yields value).bind fun _ _ => .pure trivial
  | construct values =>
      rw [← bound] at values
      exact (convertValues_yields values).mono fun _ _ => trivial
  | memberInit noArgs assigned values =>
      rw [← bound] at values
      exact (convertAssigned_yields values).bind fun _ _ => .pure trivial

/-- Projections other than to the element itself return a shape of the outline stated. -/
theorem projection_yields {body : Expr} {path : Path} {param : String} {outline : Outline}
    (bound : frame.param = some param) (notElement : body.node ≠ .parameter param)
    (h : Selectable frame.shape.outline param body outline) :
    (Compiler.projection frame path body).Yields fun shape => shape.outline = outline := by
  cases h with
  | element => exact absurd rfl notElement
  | value value =>
      rw [← bound] at value
      -- No construction is convertible, so a value projects to a scalar.
      have hprojection : Compiler.projection frame path body =
          do return .scalar (← convertValue frame path body) := by
        cases value <;> rfl
      rw [hprojection]
      exact (convertValue_yields value).bind fun _ _ => .pure rfl
  | @construct id ty construction named values =>
      rw [← bound] at values
      simp only [Compiler.projection, List.isEmpty_eq_false_iff.2 named]
      exact (convertValues_yields (forall_mem_zip.1 values)).bind fun terms hterms =>
        .pure (congrArg Outline.members (outline_construct hterms))
  | memberInit values =>
      rw [← bound] at values
      exact (convertAssigned_yields values).bind fun _ hnames => .pure (congrArg Outline.members hnames)

end Complete

namespace Compiler

variable {c : Compiler} {e argument body : Expr} {link : Link} {path : Path} {ctx : Context}
  {param : Param} {below : Unit → Except CompileError Context} {outline outline' : Outline}

theorem startTable_yields {table : Table} {source : TableSource}
    (literal : e.node = .constant (.table table))
    (resolved : c.schema.tableSource? table.model = some source) :
    Yields (c.startTable e) fun ctx =>
      ctx.shape.outline = .members (table.model.fields.map (·.name)) := by
  simp only [startTable, literal, resolved]
  exact .pure (outline_ofSource resolved)

theorem addPredicate_yields (selector : asSelector? argument = some (param, body))
    (h : Convertible ctx.shape.outline (some param.name) body) :
    Yields (addPredicate ctx argument path) fun ctx' => ctx'.shape.outline = ctx.shape.outline := by
  simp only [addPredicate, selector]
  refine (Yields.converting (convert_yields h)).bind ?_
  rintro ⟨predicate, _⟩ ⟨-, slots, rfl⟩
  exact .pure rfl

theorem project_yields (spine : c.root.spinePath? e = some path)
    (h : Selectable ctx.shape.outline param.name body outline) :
    Yields (c.project ctx e argument param body) fun ctx' => ctx'.shape.outline = outline := by
  rw [project]
  split
  · next element =>
      have hnode := isElement_iff.1 element
      cases h with
      | element => exact .pure rfl
      | construct | memberInit => cases hnode
      | value value =>
          -- A parameter that is converted stands for a scalar, which is kept.
          cases value with
          | element _ scalar => exact .pure scalar
          | _ => cases hnode
  · next notElement =>
      rw [isElement_iff] at notElement
      rw [argPath_of_spine spine]
      refine (Yields.converting (projection_yields rfl notElement h)).bind ?_
      rintro ⟨shape, _⟩ ⟨hshape, slots, rfl⟩
      exact .pure hshape

theorem isExplicitConstruction_of_sortable {param : String} (h : Sortable outline param body) :
    isExplicitConstruction body = false := by
  cases h with
  | value value => cases value <;> rfl
  | construct values => rfl
  | @memberInit id ty construction fields noArgs assigned values =>
      simpa [isExplicitConstruction, noArgs, assignments, Binding.isAssign] using assigned

theorem checkKey_yields {kind : SortKind} (selector : asSelector? argument = some (param, body))
    (h : Sortable outline param.name body) : Yields (checkKey kind argument) fun _ => True := by
  have hlambda : argument.asLambda? = some ([param], body) := by
    rw [Expr.asLambda?, asSelector?_eq_some.1 selector]
  simp only [checkKey, hlambda, isExplicitConstruction_of_sortable h]
  exact .pure trivial

theorem addSort_yields {kind : SortKind} (selector : asSelector? argument = some (param, body))
    (h : Sortable ctx.shape.outline param.name body) :
    Yields (addSort ctx kind argument path) fun ctx' => ctx'.shape.outline = ctx.shape.outline := by
  simp only [addSort, selector]
  refine (Yields.converting (keys_yields rfl h)).bind ?_
  rintro ⟨terms, _⟩ ⟨-, slots, rfl⟩
  exact .pure rfl

theorem addBound_yields {isTake : Bool} (h : Convertible ctx.shape.outline none argument) :
    Yields (addBound ctx isTake argument path) fun ctx' =>
      ctx'.shape.outline = ctx.shape.outline := by
  rw [addBound]
  refine (Yields.converting (convert_yields h)).bind ?_
  rintro ⟨bound, _⟩ ⟨-, slots, rfl⟩
  cases isTake <;> exact .pure rfl

/-- The rule of an operator extends whatever the chain below builds. -/
theorem extend_yields (call : Link.ofExpr? e = some link) (spine : c.root.spinePath? e = some path)
    (hbelow : Yields (below ()) fun ctx => ctx.shape.outline = outline)
    (h : Applies outline link.operator link.argument outline') :
    Yields (c.extend (.ofOperator link.operator) e below) fun ctx => ctx.shape.outline = outline' := by
  have harg := argPath_of_spine spine
  rcases link with ⟨op, source, argument⟩
  cases h with
  | filter selector predicate =>
      rw [← asSelector?_eq_some] at selector
      simp only [Rule.ofOperator, extend, call, extendFilter, harg]
      refine hbelow.bind fun inner hinner => ?_
      -- The scope below may be closed first, which keeps the outline.
      rw [← hinner, ← Context.outline_wrapIf] at predicate
      exact (addPredicate_yields selector predicate).mono fun _ h => by simp [h, hinner]
  | select selector projection =>
      rw [← asSelector?_eq_some] at selector
      simp only [Rule.ofOperator, extend, call, extendSelect, selector]
      refine hbelow.bind fun inner hinner => ?_
      rw [← hinner] at projection
      exact project_yields spine projection
  | sort sorts selector key =>
      rw [← asSelector?_eq_some] at selector
      have hrule : Rule.ofOperator op = .sort := by
        cases op <;> simp_all [Rule.ofOperator]
      rcases SortKind.exists_ofOperator?_iff.2 sorts with ⟨kind, hkind⟩
      simp only [hrule, extend, call, extendSort, hkind, harg]
      -- The key is checked before the chain below is built.
      refine (checkKey_yields selector key).bind fun _ _ => hbelow.bind fun inner hinner => ?_
      rw [← hinner, ← Context.outline_wrapIf] at key
      exact (addSort_yields selector key).mono fun _ h => by simp [h, hinner]
  | bound bounds count =>
      have hrule : Rule.ofOperator op = .page := by
        cases op <;> simp_all [Rule.ofOperator]
      simp only [hrule, extend, call, extendPage, harg]
      refine hbelow.bind fun inner hinner => ?_
      rw [← hinner, ← Context.outline_wrapIf] at count
      exact (addBound_yields count).mono fun _ h => by simp [h, hinner]

/-- With a complete registry, a link is handed to the rule of its operator. -/
theorem dispatch_of_complete (complete : c.rules = Rule.all) (call : Link.ofExpr? e = some link) :
    c.dispatch e below = c.extend (.ofOperator link.operator) e below := by
  have hmem : Rule.ofOperator link.operator ∈ c.rules := by
    rw [complete]
    cases link.operator <;> simp [Rule.ofOperator, Rule.all]
  have hfind : c.findRule? e = some (.ofOperator link.operator) :=
    findRule?_eq_some.2 ⟨hmem, (Rule.accepts_iff_of_link call).2 rfl⟩
  rw [dispatch, hfind]

/-- Accepted chains build a context whose elements have the outline. -/
theorem build_yields (complete : c.rules = Rule.all) (k : Nat)
    (position : c.root.resolve? (List.replicate k 0) = some e) (h : Accepted c.schema e outline) :
    Yields (c.build e) fun ctx => ctx.shape.outline = outline := by
  -- The chain below a link at position `k` of the spine is at position `k + 1`.
  induction h generalizing k with
  | @table id ty table source resolved =>
      have hfind : c.findRule? ⟨id, ty, .constant (.table table)⟩ = some .table :=
        findRule?_eq_some.2 ⟨by simp [complete, Rule.all], rfl⟩
      rw [build_of_noLink rfl, dispatch, hfind]
      simp only [extend]
      exact startTable_yields rfl resolved
  | @call id ty op source argument outline outline' _ applies ih =>
      have call : Link.ofExpr? ⟨id, ty, .call op.method none [source, argument]⟩ =
          some ⟨op, source, argument⟩ :=
        Link.ofExpr?_eq_some.2 ⟨id, ty, op.method, rfl, Operator.ofMethod?_eq_some.2 rfl⟩
      rw [build_of_link call, dispatch_of_complete complete call]
      exact extend_yields call (Expr.spinePath?_of_resolve? k position)
        (ih (k + 1) (resolve?_source_of_spine k call position)) applies

end Compiler

/-- With a complete registry, a template compiles exactly when the grammar accepts it. -/
theorem compiles_iff_accepted (serial : Nat) (schema : Schema) (t : Expr) :
    (∃ plan, Plan.compile serial Rule.all schema t = .ok plan) ↔
      ∃ outline, Accepted schema t outline := by
  have root : t.resolve? (List.replicate 0 0) = some t := t.resolve?_nil
  constructor
  · rintro ⟨plan, compiled⟩
    rcases bind_ok.1 compiled with ⟨query, hquery, -⟩
    rcases Compiler.query_ok.1 hquery with ⟨ctx, hctx, -⟩
    exact ⟨_, accepted_of_builds (Compiler.builds_of_build 0 root hctx).2⟩
  · rintro ⟨outline, accepted⟩
    rcases (Compiler.build_yields (c := ⟨Rule.all, schema, t⟩) rfl 0 root accepted).ok with
      ⟨ctx, hctx, -⟩
    exact ⟨_, bind_ok.2 ⟨_, Compiler.query_ok.2 ⟨ctx, hctx, rfl⟩, rfl⟩⟩

end Compile
end QueryPlan
