import QueryPlan.Proofs.Plan.Binding
import QueryPlan.Proofs.Semantics.Sequence

/-!
# Bodies — converted bodies have the value of the body

A term that an expression became has, in every valuation whose row represents the current element, the
value of the expression on that element.  The parameters of the valuation are the values that binding
reads from the template itself, and the expression stands in that template at the path that its slots
were registered under.

The chain reads method names, lambdas and initializers in its own way, and the compiler in another.  That
both read the same is proved first.
-/

namespace QueryPlan
namespace Semantics

open Compile (Converts ConvertsAll Frame Keyed Projects asSelector? assignments?)
open Sql (Shape Slot Term)

variable {V : Type} {I : Interpretation V}

/-! ## Reading templates -/

theorem operator?_eq_some {m : Method} {op : Operator} : operator? m = some op ↔ m = op.method := by
  constructor
  · intro h
    rcases m with ⟨declaring, name⟩
    unfold operator? at h
    split at h
    · next declared =>
        cases declared
        split at h
        case h_9 => cases h
        all_goals
          cases h
          rename_i named
          cases named
          rfl
    · cases h
  · rintro rfl
    cases op <;> rfl

/-- The chain and the compiler agree on the operator that a method stands for. -/
theorem operator?_eq_ofMethod? (m : Method) : operator? m = Operator.ofMethod? m :=
  Option.ext fun _ => operator?_eq_some.trans Operator.ofMethod?_eq_some.symm

/-- A selector is a function of the element. -/
theorem function_of_selector {argument : Expr} {param : Param} {body : Expr}
    (h : asSelector? argument = some (param, body)) :
    function? argument = some (param.name, body) := by
  rw [Compile.asSelector?_eq_some] at h
  induction argument using Expr.unquoted.induct with
  | case1 id ty method operand ih => exact ih h
  | case2 e bare =>
      rw [Expr.unquoted.eq_2 e bare] at h
      rcases e with ⟨id, ty, node⟩
      cases h
      rfl

/-- Initializers that only assign are read alike. -/
theorem mapM_assigned {bindings : List (Binding Expr)} {fields : List (Member × Expr)}
    (h : assignments? bindings = some fields) :
    bindings.mapM assigned? = some (fields.map fun f => (f.1.name, f.2)) := by
  fun_induction assignments? bindings generalizing fields with
  | case1 =>
      cases h
      rfl
  | case2 m value rest ih =>
      rcases Option.map_eq_some_iff.1 h with ⟨others, hothers, rfl⟩
      rw [List.mapM_cons, ih hothers]
      rfl
  | case3 => cases h

/-! ## Parameters -/

/-- Binding a list of slots binds each of them. -/
theorem bind_of_mapM {t : Expr} {slots : List Slot} {params : List Value}
    (h : slots.mapM (·.bind t) = .ok params) {index : Nat} {slot : Slot}
    (hslot : slots[index]? = some slot) :
    ∃ value, params[index]? = some value ∧ slot.bind t = .ok value := by
  have entries := Expr.rel_getElem?_of_forall₂ (mapM_ok_iff.1 h) index
  rw [hslot] at entries
  cases hvalue : params[index]? with
  | none =>
      rw [hvalue] at entries
      cases entries
  | some value =>
      rw [hvalue] at entries
      cases entries with
      | some hbind => exact ⟨value, rfl, hbind⟩

/-- A literal slot is bound to the literal at its position. -/
theorem bind_literal {t : Expr} {path : Path} {id : Nat} {ty : Ty} {value value' : Value}
    (position : t.resolve? path = some ⟨id, ty, .constant value⟩)
    (h : (⟨path, .literal⟩ : Slot).bind t = .ok value') : value' = value := by
  cases Slot.bind_ok_iff.1 h with
  | literal found _ =>
      rw [position] at found
      cases found
      rfl

/-- A captured slot is bound to the variable of the environment at its position. -/
theorem bind_captured {t : Expr} {path : Path} {id : Nat} {ty : Ty} {env : Env Value}
    {name : String} {value : Value}
    (position : t.resolve? path = some ⟨id, ty, .constant (.closure env)⟩)
    (h : (⟨path, .captured name⟩ : Slot).bind t = .ok value) : env.get? name = some value := by
  cases Slot.bind_ok_iff.1 h with
  | captured found bound _ =>
      rw [position] at found
      cases found
      exact bound

/-! ## Elements of rows -/

/-- The element that a shape makes of a row. -/
def element? (I : Interpretation V) (v : Valuation V) : Shape → Option (Element V)
  | .members members => do
      return .record (← members.mapM fun m => do return (m.1, ← value? I v m.2))
  | .scalar term => do return .scalar (← value? I v term)

/-- Members of a shape have the values of the fields of its element. -/
theorem field_of_member {v : Valuation V} {shape : Shape} {element : Element V} {name : String}
    {τ : Term} (found : shape.member? name = some τ) (h : element? I v shape = some element) :
    ∃ x, value? I v τ = some x ∧ element.field? name = some x := by
  cases shape with
  | scalar term => cases found
  | members members =>
      rw [element?] at h
      rcases Option.bind_eq_some_iff.1 h with ⟨fields, hfields, hrecord⟩
      cases hrecord
      rw [Element.field?]
      rw [Shape.member?] at found
      clear h
      induction members generalizing fields with
      | nil => cases found
      | cons m rest ih =>
          rcases cons_of_mapM hfields with ⟨field, others, hfield, htail, rfl⟩
          rcases Option.bind_eq_some_iff.1 hfield with ⟨x, hx, hpure⟩
          cases hpure
          -- Both look up the first entry of a name.
          rw [List.find?_cons] at found
          rw [List.lookup_cons]
          cases hname : m.1 == name with
          | true =>
              rw [hname] at found
              cases found
              rw [BEq.comm, hname]
              exact ⟨x, hx, rfl⟩
          | false =>
              rw [hname] at found
              rw [BEq.comm, hname]
              exact ih found others htail

/-- A frame whose parameter stands for the element that the frame's shape makes of a row. -/
structure Represents (I : Interpretation V) (v : Valuation V) (frame : Frame) (bound : Bound V) :
    Prop where
  param : frame.param = bound.map (·.1)
  element : ∀ param element, bound = some (param, element) →
    element? I v frame.shape = some element

/-- Outside of lambdas no row is referred to. -/
theorem Represents.none {v : Valuation V} {shape : Shape} {place : Place} :
    Represents I v ⟨shape, .none, place⟩ .none where
  param := rfl
  element := by simp

theorem Represents.some {v : Valuation V} {shape : Shape} {place : Place} {param : String}
    {element : Element V} (h : element? I v shape = .some element) :
    Represents I v ⟨shape, .some param, place⟩ (.some (param, element)) where
  param := rfl
  element := by
    rintro _ _ heq
    cases heq
    exact h

/-! ## Expressions -/

theorem operation_of_sqlOp {op : BinaryOp} {logical : Bool} {sqlOp : Sql.BinaryOp}
    (h : Compile.sqlOp? op logical = some sqlOp) :
    operation? I op logical = some (I.binary sqlOp) := by
  cases op <;> cases h <;> rfl

/-- Equality with a parameter is the same in a two-valued interpretation. -/
theorem value_combine {v : Valuation V} {op : Sql.BinaryOp} {l r : Term} {a b : V}
    (hl : value? I v l = some a) (hr : value? I v r = some b) :
    value? I v (Compile.combine op l r) = some (I.binary op a b) := by
  have plain : ∀ op, value? I v (.binary op l r) = some (I.binary op a b) := by
    intro op
    rw [value?, hl, hr]
    rfl
  unfold Compile.combine
  split
  · cases op with
    | equal => rw [I.equal_eq]; exact plain _
    | notEqual => rw [I.notEqual_eq]; exact plain _
    | _ => exact plain _
  · exact plain op

/-- A comparison with an inlined null is a null test. -/
theorem evaluate_of_isInlineNull {bound : Bound V} {e : Expr}
    (h : Compile.isInlineNull e = true) : evaluate? I bound e = some (I.literal .null) := by
  rcases e with ⟨id, ty, node⟩
  cases node with
  | constant value =>
      simp only [Compile.isInlineNull, Expr.asConstant?, Option.any_some, Bool.and_eq_true] at h
      cases value with
      | null => rfl
      | _ => cases h.2
  | _ => simp [Compile.isInlineNull, Expr.asConstant?] at h

section Converted

variable {t : Expr} {slots : List Slot} {params : List Value} {v : Valuation V} {frame : Frame}
  {bound : Bound V} {path : Path}

/-- A converted expression has the value of the expression. -/
theorem evaluate_of_converts {e : Expr} {τ : Term} (h : Converts slots frame path e τ)
    (position : t.resolve? path = some e) (binds : slots.mapM (·.bind t) = .ok params)
    (hparams : v.params = params.map I.literal) (represents : Represents I v frame bound) :
    ∃ x, value? I v τ = some x ∧ evaluate? I bound e = some x := by
  induction h with
  | @element path id ty name τ hparam hshape =>
      rcases Option.map_eq_some_iff.1 (represents.param ▸ hparam) with ⟨⟨param, element⟩, rfl, rfl⟩
      have helement := represents.element _ _ rfl
      rw [hshape, element?] at helement
      rcases Option.bind_eq_some_iff.1 helement with ⟨x, hx, hpure⟩
      cases hpure
      exact ⟨x, hx, by simp [evaluate?]⟩
  | @field path id id' ty ty' m name τ hparam found =>
      rcases Option.map_eq_some_iff.1 (represents.param ▸ hparam) with ⟨⟨param, element⟩, rfl, rfl⟩
      rcases field_of_member found (represents.element _ _ rfl) with ⟨x, hx, hfield⟩
      exact ⟨x, hx, by simp [evaluate?, hfield]⟩
  | @captured path id id' index ty ty' m env slot =>
      rcases bind_of_mapM binds slot with ⟨value, hvalue, hbind⟩
      have hget := bind_captured (Expr.resolve?_child position rfl) hbind
      refine ⟨I.literal value, ?_, by simp [evaluate?, hget]⟩
      rw [value?, hparams, List.getElem?_map, hvalue]
      rfl
  | inlined => exact ⟨_, rfl, rfl⟩
  | @literal path id index ty value notInlined scalar slot =>
      rcases bind_of_mapM binds slot with ⟨value', hvalue, hbind⟩
      rcases bind_literal position hbind with rfl
      refine ⟨I.literal value', ?_, rfl⟩
      rw [value?, hparams, List.getElem?_map, hvalue]
      rfl
  -- A comparison that became a null test compares with null in the chain.
  | @nullRight path id ty op method left right conversion negated τ test null _ ih =>
      rcases ih (Expr.resolve?_child position rfl) with ⟨x, hx, hleft⟩
      refine ⟨I.isNull x negated, by simp [value?, hx], ?_⟩
      cases op <;> cases test
      · simp [evaluate?, operation?, hleft, evaluate_of_isInlineNull null, I.isNull_right]
      · simp [evaluate?, operation?, hleft, evaluate_of_isInlineNull null, I.isNotNull_right]
  | @nullLeft path id ty op method left right conversion negated τ test notNull null _ ih =>
      rcases ih (Expr.resolve?_child position rfl) with ⟨x, hx, hright⟩
      refine ⟨I.isNull x negated, by simp [value?, hx], ?_⟩
      cases op <;> cases test
      · simp [evaluate?, operation?, hright, evaluate_of_isInlineNull null, I.isNull_left]
      · simp [evaluate?, operation?, hright, evaluate_of_isInlineNull null, I.isNotNull_left]
  | binary noTest operator _ _ ihl ihr =>
      rcases ihl (Expr.resolve?_child position rfl) with ⟨a, ha, hleft⟩
      rcases ihr (Expr.resolve?_child position rfl) with ⟨b, hb, hright⟩
      refine ⟨_, value_combine ha hb, ?_⟩
      simp [evaluate?, operation_of_sqlOp operator, hleft, hright]
  | not _ ih =>
      rcases ih (Expr.resolve?_child position rfl) with ⟨x, hx, hoperand⟩
      exact ⟨I.not x, by simp [value?, hx], by simp [evaluate?, hoperand]⟩
  | negate _ ih =>
      rcases ih (Expr.resolve?_child position rfl) with ⟨x, hx, hoperand⟩
      exact ⟨I.negate x, by simp [value?, hx], by simp [evaluate?, hoperand]⟩
  | transparent wrapper _ ih =>
      rcases ih (Expr.resolve?_child position rfl) with ⟨x, hx, hoperand⟩
      refine ⟨x, hx, ?_⟩
      -- The chain passes the value of the operand on as well.
      simp only [List.mem_cons, List.not_mem_nil, or_false] at wrapper
      rcases wrapper with rfl | rfl | rfl | rfl <;> simpa [evaluate?] using hoperand
  | conditional _ _ _ iht iha ihb =>
      rcases iht (Expr.resolve?_child position rfl) with ⟨c, hc, htest⟩
      rcases iha (Expr.resolve?_child position rfl) with ⟨a, ha, htrue⟩
      rcases ihb (Expr.resolve?_child position rfl) with ⟨b, hb, hfalse⟩
      refine ⟨if I.truth c then a else b, by simp [value?, hc, ha, hb], ?_⟩
      simp [evaluate?, htest, htrue, hfalse]

/-! ## Values -/

/-- A predicate has one of two values. -/
theorem flag_of_isPredicate {τ : Term} {x : V} (predicate : τ.isPredicate = true)
    (h : value? I v τ = some x) : x = I.literal (.int 1) ∨ x = I.literal (.int 0) := by
  cases τ with
  | binary op l r =>
      rw [value?] at h
      rcases Option.bind_eq_some_iff.1 h with ⟨a, -, h⟩
      rcases Option.bind_eq_some_iff.1 h with ⟨b, -, h⟩
      cases h
      exact I.binary_flag op a b predicate
  | not operand =>
      rw [value?] at h
      rcases Option.bind_eq_some_iff.1 h with ⟨a, -, h⟩
      cases h
      exact I.not_flag a
  | isNull operand negated =>
      rw [value?] at h
      rcases Option.bind_eq_some_iff.1 h with ⟨a, -, h⟩
      cases h
      exact I.isNull_flag a negated
  | _ => cases predicate

/-- A predicate that is used as a value keeps its value. -/
theorem value_asValue {ty : Ty} {τ : Term} {x : V} (h : value? I v τ = some x) :
    value? I v (Compile.asValue ty τ) = some x := by
  unfold Compile.asValue
  split
  · next used =>
      rw [Bool.and_eq_true] at used
      rcases flag_of_isPredicate used.2 h with rfl | rfl
      -- One and zero are the values of the two branches.
      · simp [Term.ofPredicate, value?, h, I.truth_one]
      · simp [Term.ofPredicate, value?, h, I.truth_zero]
  · exact h

/-- Consecutive converted children have the values of the children. -/
theorem evaluate_of_convertsAll {e : Expr} {index : Nat} {values : List Expr} {terms : List Term}
    (h : ConvertsAll slots frame path index values terms) (position : t.resolve? path = some e)
    (children : values <+: e.children.drop index) (binds : slots.mapM (·.bind t) = .ok params)
    (hparams : v.params = params.map I.literal) (represents : Represents I v frame bound) :
    ∃ xs, terms.mapM (value? I v) = some xs ∧ values.mapM (evaluate? I bound) = some xs := by
  induction h with
  | nil => exact ⟨[], rfl, rfl⟩
  | cons head _ ih =>
      rcases Compile.cons_prefix_children children with ⟨hvalue, hrest⟩
      obtain ⟨x, hx, hevaluate⟩ := evaluate_of_converts head (Expr.resolve?_child position hvalue)
        binds hparams represents
      rcases ih hrest with ⟨xs, hxs, hevaluates⟩
      refine ⟨x :: xs, ?_, ?_⟩
      · rw [List.mapM_cons, value_asValue hx, hxs]
        rfl
      · rw [List.mapM_cons, hevaluate, hevaluates]
        rfl

/-- Members that pair names with terms make a record that pairs the names with the values. -/
theorem element_of_zip {names : List String} {terms : List Term} {xs : List V}
    (h : terms.mapM (value? I v) = some xs) :
    element? I v (.members (names.zip terms)) = some (.record (names.zip xs)) := by
  have hzip : (names.zip terms).mapM (fun m => do return (m.1, ← value? I v m.2)) =
      some (names.zip xs) := by
    induction names generalizing terms xs with
    | nil => rfl
    | cons name rest ih =>
        cases terms with
        | nil =>
            cases h
            rfl
        | cons τ terms =>
            rcases cons_of_mapM h with ⟨x, others, hx, hothers, rfl⟩
            rw [List.zip_cons_cons, List.mapM_cons, ih hothers]
            simp [hx]
  rw [element?, hzip]
  rfl

/-! ## Selectors -/

/-- A shape whose columns have distinct names. -/
def DistinctColumns (shape : Shape) : Prop :=
  (shape.columns.map (·.name)).Nodup

theorem distinctColumns_zip {names : List String} (h : names.Nodup) (terms : List Term) :
    DistinctColumns (.members (names.zip terms)) := by
  have hnames : ((names.zip terms).map (·.1)).Sublist names := by
    rw [List.zip_eq_zip_take_min, List.map_fst_zip (by simp)]
    exact List.take_sublist _ _
  rw [DistinctColumns, Shape.columns, List.map_map]
  exact h.sublist hnames

theorem distinctColumns_scalar (τ : Term) : DistinctColumns (.scalar τ) := by
  simp [DistinctColumns, Shape.columns]

/-- A plain selector projects to columns with distinct names. -/
theorem distinctColumns_of_projects {body : Expr} {shape : Shape}
    (h : Projects slots frame path body shape) (plain : PlainSelector body) :
    DistinctColumns shape := by
  cases h with
  | construct named values => exact distinctColumns_zip plain.2 _
  | memberInit assigned values =>
      have distinct := plain.2 _ (mapM_assigned assigned)
      rw [List.map_map] at distinct
      exact distinctColumns_zip distinct _
  | scalar value => exact distinctColumns_scalar _

/-- A projection makes the element that the selector makes. -/
theorem project_of_projects {body : Expr} {shape shape' : Shape} {place : Place} {param : Param}
    {element : Element V} (h : Projects slots ⟨shape, some param.name, place⟩ path body shape')
    (notElement : Compile.Compiler.isElement param body = false) (plain : PlainSelector body)
    (position : t.resolve? path = some body) (binds : slots.mapM (·.bind t) = .ok params)
    (hparams : v.params = params.map I.literal) (helement : element? I v shape = some element) :
    ∃ projected, element? I v shape' = some projected ∧
      project? I param.name element body = some projected := by
  have represents : Represents I v ⟨shape, some param.name, place⟩ (some (param.name, element)) :=
    .some helement
  cases h with
  | construct named values =>
      rw [plain.1, List.take_length] at values
      obtain ⟨xs, hterms, hargs⟩ := evaluate_of_convertsAll values position (List.prefix_refl _)
        binds hparams represents
      refine ⟨_, element_of_zip hterms, ?_⟩
      simp [project?, hargs]
  | @memberInit id ty construction bindings fields terms assigned values =>
      have children : fields.map (·.2) <+:
          (construction.args ++ Binding.childrenOf bindings).drop construction.args.length := by
        have := Compile.assignedValues_children construction bindings
        rwa [assigned] at this
      obtain ⟨xs, hterms, hvalues⟩ := evaluate_of_convertsAll values position children binds
        hparams represents
      refine ⟨_, element_of_zip hterms, ?_⟩
      rw [List.mapM_map, Function.comp_def] at hvalues
      simp [project?, plain.1, mapM_assigned assigned, hvalues, Function.comp_def]
  | scalar value =>
      rcases evaluate_of_converts value position binds hparams represents with ⟨x, hx, hevaluate⟩
      refine ⟨.scalar x, ?_, ?_⟩
      · rw [element?, value_asValue hx]
        rfl
      · cases value with
        -- A body that is the element itself projects to no new shape.
        | element hparam _ =>
            cases hparam
            simp [Compile.Compiler.isElement] at notElement
        | _ => simp only [project?, hevaluate]; rfl

/-- Sort keys have the values that the key selector sorts by. -/
theorem keyOf_of_keyed {body : Expr} {shape : Shape} {place : Place} {param : Param}
    {element : Element V} {terms : List Term}
    (h : Keyed slots ⟨shape, some param.name, place⟩ path body terms)
    (allowed : Compile.Compiler.isExplicitConstruction body = false)
    (position : t.resolve? path = some body) (binds : slots.mapM (·.bind t) = .ok params)
    (hparams : v.params = params.map I.literal) (helement : element? I v shape = some element) :
    ∃ xs, terms.mapM (value? I v) = some xs ∧ keyOf? I param.name element body = some xs := by
  have represents : Represents I v ⟨shape, some param.name, place⟩ (some (param.name, element)) :=
    .some helement
  cases h with
  | construct values =>
      exact evaluate_of_convertsAll values position (List.prefix_refl _) binds hparams represents
  | @memberInit id ty construction bindings fields terms assigned values =>
      have hargs : construction.args = [] := by
        simp only [Compile.Compiler.isExplicitConstruction, Bool.or_eq_false_iff] at allowed
        simpa using allowed.1.1
      have children : fields.map (·.2) <+:
          (construction.args ++ Binding.childrenOf bindings).drop construction.args.length := by
        have := Compile.assignedValues_children construction bindings
        rwa [assigned] at this
      obtain ⟨xs, hterms, hvalues⟩ := evaluate_of_convertsAll values position children binds
        hparams represents
      rw [List.mapM_map, Function.comp_def] at hvalues
      exact ⟨xs, hterms, by simp [keyOf?, hargs, mapM_assigned assigned, hvalues, Function.comp_def]⟩
  | scalar value =>
      rcases evaluate_of_converts value position binds hparams represents with ⟨x, hx, hevaluate⟩
      refine ⟨[x], ?_, ?_⟩
      · rw [List.mapM_cons, value_asValue hx]
        rfl
      · cases value with
        | _ => simp only [keyOf?, hevaluate]; rfl

end Converted

end Semantics
end QueryPlan
