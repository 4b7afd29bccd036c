import QueryPlan.Proofs.Compile.Slots

/-!
# Projections — which parts of a constructed object become columns

A selector that constructs an object projects to one column for each part that has a name.  An
argument of a constructor is named by the member it stands for, and an assigned value by the member
it is assigned to.  Nothing names the arguments of a constructor whose object is initialized by
bindings, nor arguments beyond the last member; no column shows them, and the template compiles all
the same, whereas a sort key of that form is refused.
-/

namespace QueryPlan
namespace Compile

open Sql (Context Shape Slot Term)

/-! ## Parts -/

/-- Whether a selector body constructs an object. -/
def constructs (body : Expr) : Bool :=
  match body.node with
  | .construct _ | .memberInit _ _ => true
  | _ => false

/-- The parts of a constructed object that have a name, and the index of the first among the children
of the body.  An object without members, or with a binding that assigns nothing, has no such parts. -/
def namedParts? (body : Expr) : Option (Nat × List (String × Expr)) :=
  match body.node with
  | .construct construction =>
      if construction.members.isEmpty then
        none
      else
        some (0, (construction.members.map (·.name)).zip construction.args)
  | .memberInit construction bindings =>
      (assignments? bindings).map fun fields =>
        (construction.args.length, fields.map fun field => (field.1.name, field.2))
  | _ => none

/-- Whether each part of a constructed object has a name. -/
def namesEveryPart (body : Expr) : Bool :=
  match body.node with
  | .construct construction => decide (construction.args.length ≤ construction.members.length)
  | .memberInit construction _ => construction.args.isEmpty
  | _ => false

section Zip

variable {α β γ : Type}

theorem map_snd_zip_eq_take (names : List α) (values : List β) :
    (names.zip values).map (·.2) = values.take names.length := by
  rw [List.zip_eq_zip_take_min, List.map_snd_zip (by simp)]
  simp

/-- Pairing with a shorter list needs no more names than the longer one has. -/
theorem map_fst_zip_zip {names : List α} {values : List β} {terms : List γ}
    (shorter : terms.length ≤ values.length) :
    ((names.zip values).map (·.1)).zip terms = names.zip terms := by
  induction names generalizing values terms with
  | nil => simp
  | cons name names ih =>
      cases terms with
      | nil => simp
      | cons term terms =>
          cases values with
          | nil => simp at shorter
          | cons value values =>
              have shorter' : terms.length ≤ values.length := by simpa using shorter
              simp [ih shorter']

end Zip

section Parts

variable {body : Expr} {first : Nat} {parts : List (String × Expr)}

/-- If each part has a name, the named parts are the children of the body. -/
theorem parts_eq_children (h : namedParts? body = some (first, parts))
    (every : namesEveryPart body = true) : first = 0 ∧ parts.map (·.2) = body.children := by
  rcases body with ⟨id, ty, node⟩
  cases node with
  | construct construction =>
      have enough : construction.args.length ≤ construction.members.length := by
        simpa [namesEveryPart] using every
      simp only [namedParts?, Option.ite_none_left_eq_some, Option.some.injEq, Prod.mk.injEq] at h
      obtain ⟨-, rfl, rfl⟩ := h
      refine ⟨rfl, ?_⟩
      rw [map_snd_zip_eq_take, List.length_map, List.take_of_length_le enough]
      rfl
  | memberInit construction bindings =>
      have noArgs : construction.args = [] := by simpa [namesEveryPart] using every
      rcases Option.map_eq_some_iff.1 h with ⟨fields, hfields, hparts⟩
      simp only [noArgs, List.length_nil, Prod.mk.injEq] at hparts
      obtain ⟨rfl, rfl⟩ := hparts
      have values : Binding.childrenOf bindings = fields.map (·.2) :=
        childrenOf_of_assignments? hfields
      simp [Expr.children, Node.children, noArgs, values]
  | _ => cases every

/-- If some part has no name, there are fewer named parts than children. -/
theorem length_parts_lt (h : namedParts? body = some (first, parts))
    (unnamed : namesEveryPart body = false) : parts.length < body.children.length := by
  rcases body with ⟨id, ty, node⟩
  cases node with
  | construct construction =>
      have tooMany : construction.members.length < construction.args.length := by
        simpa [namesEveryPart] using unnamed
      simp only [namedParts?, Option.ite_none_left_eq_some, Option.some.injEq, Prod.mk.injEq] at h
      obtain ⟨-, rfl, rfl⟩ := h
      simp only [List.length_zip, List.length_map, Expr.children, Node.children]
      omega
  | memberInit construction bindings =>
      have args : 0 < construction.args.length := by
        simpa [namesEveryPart, List.length_pos_iff] using unnamed
      rcases Option.map_eq_some_iff.1 h with ⟨fields, hfields, hparts⟩
      obtain ⟨rfl, rfl⟩ := Prod.mk.inj hparts
      have values : Binding.childrenOf bindings = fields.map (·.2) :=
        childrenOf_of_assignments? hfields
      simp only [List.length_map, Expr.children, Node.children, values, List.length_append]
      omega
  | _ => cases h

end Parts

/-! ## Columns -/

/-- A constructed object is projected to its named parts. -/
theorem Projects.parts {slots : List Slot} {frame : Frame} {path : Path} {body : Expr}
    {shape : Shape} (h : Projects slots frame path body shape) (constructed : constructs body = true) :
    ∃ first parts terms, namedParts? body = some (first, parts) ∧
      shape = .members ((parts.map (·.1)).zip terms) ∧
      ConvertsAll slots frame path first (parts.map (·.2)) terms := by
  cases h with
  | @construct id ty construction terms named values =>
      have shorter : terms.length ≤ construction.args.length := by
        rw [values.length_eq]
        exact List.length_take_le' _ _
      refine ⟨0, (construction.members.map (·.name)).zip construction.args, terms, ?_, ?_, ?_⟩
      · simp [namedParts?, named]
      · rw [map_fst_zip_zip shorter]
      · simpa [map_snd_zip_eq_take] using values
  | @memberInit id ty construction bindings fields terms assigned values =>
      refine ⟨construction.args.length, fields.map fun field => (field.1.name, field.2), terms, ?_,
        ?_, ?_⟩
      · simp [namedParts?, assigned]
      · simp [Function.comp_def]
      · simpa [Function.comp_def] using values
  | scalar value =>
      -- A construction is no single value.
      cases value <;> cases constructed

namespace Compiler

variable {c : Compiler} {e : Expr} {link : Link} {param : Param} {body : Expr} {ctx : Context}

/-- A selector other than the element itself projects the shape that the source yields. -/
theorem projects_of_build (k : Nat) (position : c.root.resolve? (List.replicate k 0) = some e)
    (call : Link.ofExpr? e = some link) (op : link.operator = .select)
    (selector : asSelector? link.argument = some (param, body))
    (notElement : isElement param body = false) (h : c.build e = .ok ctx) :
    ∃ below, c.build link.source = .ok below ∧
      Projects ctx.slots ⟨below.shape, some param.name, .select⟩
        (bodyPath link.argument (List.replicate k 0 ++ [1])) body ctx.shape := by
  rw [build_of_link call] at h
  rcases dispatch_ok h with ⟨rule, -, accepted, hextend⟩
  obtain ⟨below, hbelow, -, step⟩ :=
    extended_of_extend call accepted (Expr.spinePath?_of_resolve? k position) hextend
  refine ⟨below, hbelow, ?_⟩
  generalize hslots : ctx.slots = slots at step
  cases step with
  | select _ selector' _ projected =>
      cases selector.symm.trans selector'
      exact projected
  | identity _ selector' element =>
      cases selector.symm.trans selector'
      simp [notElement] at element
  | filter op' _ _ _ | take op' _ _ | skip op' _ _ => simp [op] at op'
  | sort op' _ _ _ _ => simp [op, SortKind.ofOperator?] at op'

end Compiler

/-- A projection that constructs an object is refused if the object has no named parts.  Otherwise it
has a column for each named part in order; these are all constructor arguments and assigned values
if each of them has a name, and fewer if one has none. -/
theorem projections_keep_named_parts (c : Compiler) (k : Nat) {e : Expr} {link : Link} {param : Param}
    {body : Expr} (position : c.root.resolve? (List.replicate k 0) = some e)
    (call : Link.ofExpr? e = some link) (op : link.operator = .select)
    (selector : asSelector? link.argument = some (param, body))
    (constructed : constructs body = true) :
    (namedParts? body = none → ∃ error, c.build e = .error error) ∧
      ∀ ctx, c.build e = .ok ctx → ∃ below first parts terms,
        c.build link.source = .ok below ∧ namedParts? body = some (first, parts) ∧
        ctx.shape = .members ((parts.map (·.1)).zip terms) ∧
        ConvertsAll ctx.slots ⟨below.shape, some param.name, .select⟩
          (bodyPath link.argument (List.replicate k 0 ++ [1])) first (parts.map (·.2)) terms ∧
        (namesEveryPart body = true →
          first = 0 ∧ parts.map (·.2) = body.children ∧
            ctx.shape.columns.length = body.children.length) ∧
        (namesEveryPart body = false → ctx.shape.columns.length < body.children.length) := by
  have notElement : Compiler.isElement param body = false := by
    rcases body with ⟨id, ty, node⟩
    cases node <;> first | rfl | cases constructed
  have columns : ∀ ctx, c.build e = .ok ctx → ∃ below first parts terms,
      c.build link.source = .ok below ∧ namedParts? body = some (first, parts) ∧
      ctx.shape = .members ((parts.map (·.1)).zip terms) ∧
      ConvertsAll ctx.slots ⟨below.shape, some param.name, .select⟩
        (bodyPath link.argument (List.replicate k 0 ++ [1])) first (parts.map (·.2)) terms := by
    intro ctx built
    obtain ⟨below, hbelow, projected⟩ :=
      Compiler.projects_of_build k position call op selector notElement built
    exact ⟨below, (projected.parts constructed).imp fun _ ⟨parts, terms, named⟩ =>
      ⟨parts, terms, hbelow, named⟩⟩
  constructor
  · intro unnamed
    cases built : c.build e with
    | error error => exact ⟨error, rfl⟩
    | ok ctx =>
        obtain ⟨_, _, _, _, -, named, -, -⟩ := columns ctx built
        cases unnamed.symm.trans named
  · intro ctx built
    obtain ⟨below, first, parts, terms, hbelow, named, hshape, values⟩ := columns ctx built
    have width : ctx.shape.columns.length = parts.length := by
      have same : terms.length = parts.length := by simpa using values.length_eq
      simp [hshape, Shape.columns, same]
    refine ⟨below, first, parts, terms, hbelow, named, hshape, values, ?_, ?_⟩
    · intro every
      obtain ⟨hfirst, hparts⟩ := parts_eq_children named every
      refine ⟨hfirst, hparts, ?_⟩
      calc ctx.shape.columns.length
          = (parts.map (·.2)).length := by rw [width, List.length_map]
        _ = body.children.length := by rw [hparts]
    · intro unnamed
      calc ctx.shape.columns.length
          = parts.length := width
        _ < body.children.length := length_parts_lt named unnamed

namespace Sample

/-- A table of people, projected by a selector of the element `x`. -/
def projected (selector : Expr) : Expr :=
  let people : Expr := ⟨60, .table element, .constant (.table ⟨person, element⟩)⟩
  let lambda : Expr := ⟨61, .named "Label", .lambda [⟨"x", element⟩] selector⟩
  ⟨62, .queryable (.named "Label"), .call Operator.select.method none [people, lambda]⟩

/-- The name of an element `x`. -/
def nameOf : Expr :=
  ⟨64, .text, .member ⟨element, "name", .text⟩ (some ⟨63, element, .parameter "x"⟩)⟩

/-- The age of an element `x`. -/
def ageOf : Expr :=
  ⟨66, .int64, .member ⟨element, "age", .int64⟩ (some ⟨65, element, .parameter "x"⟩)⟩

/-- A label of two named parts. -/
def namedLabel : Expr :=
  ⟨67, .named "Label", .construct ⟨⟨.named "Label", 2⟩, [nameOf, ageOf],
    [⟨.named "Label", "text", .text⟩, ⟨.named "Label", "years", .int64⟩]⟩⟩

/-- A label whose constructor takes the age and whose text is assigned. -/
def initializedLabel : Expr :=
  ⟨68, .named "Label", .memberInit ⟨⟨.named "Label", 1⟩, [ageOf], []⟩
    [.assign ⟨.named "Label", "text", .text⟩ nameOf]⟩

/-- The compiler of a projected table of people. -/
def projecting (selector : Expr) : Compiler :=
  ⟨Rule.all, schema, projected selector⟩

end Sample

/-- Both parts of a label become columns. -/
theorem namedLabel_columns :
    ∃ ctx, (Sample.projecting Sample.namedLabel).build (Sample.projected Sample.namedLabel) = .ok ctx ∧
      ctx.shape = .members [("text", .column 0 "name"), ("years", .column 0 "age")] ∧
      ctx.shape.columns.length = Sample.namedLabel.children.length := by
  obtain ⟨ctx, built, hshape⟩ :
      ∃ ctx, (Sample.projecting Sample.namedLabel).build (Sample.projected Sample.namedLabel) =
        .ok ctx ∧ ctx.shape = .members [("text", .column 0 "name"), ("years", .column 0 "age")] := by
    exact exists_ok_of_view (by decide +kernel)
  have kept := (projections_keep_named_parts (Sample.projecting Sample.namedLabel) 0
    (e := Sample.projected Sample.namedLabel) rfl rfl rfl rfl rfl).2 ctx built
  obtain ⟨_, _, _, _, -, -, -, -, every, -⟩ := kept
  exact ⟨ctx, built, hshape, (every rfl).2.2⟩

/-- The argument of a constructor is dropped when bindings initialize the object. -/
theorem initializer_drops_arguments :
    ¬ ∀ (c : Compiler) (k : Nat) (e : Expr) (link : Link) (param : Param) (body : Expr) (ctx : Context),
      c.root.resolve? (List.replicate k 0) = some e → Link.ofExpr? e = some link →
      link.operator = .select → asSelector? link.argument = some (param, body) →
      constructs body = true → c.build e = .ok ctx →
        ctx.shape.columns.length = body.children.length := by
  intro claimed
  obtain ⟨ctx, built, hshape⟩ :
      ∃ ctx, (Sample.projecting Sample.initializedLabel).build
        (Sample.projected Sample.initializedLabel) = .ok ctx ∧
          ctx.shape = .members [("text", .column 0 "name")] := by
    exact exists_ok_of_view (by decide +kernel)
  have width := claimed (Sample.projecting Sample.initializedLabel) 0 _ _ _ _ ctx rfl rfl rfl rfl rfl
    built
  rw [hshape] at width
  cases width

end Compile
end QueryPlan
