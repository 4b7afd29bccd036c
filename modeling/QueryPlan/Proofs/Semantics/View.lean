import QueryPlan.Proofs.Semantics.Bodies

/-!
# View — the sequence that a context stands for

A context is a query under construction.  A `View` of it gives the rows that its current scope reads,
and for each row the element, the filter and the sort keys that the context stands for.  The sequence
of a view is what the chain built so far yields: the kept rows with the keys in force as long as the
scope has no bounds, and the elements of the page once it has.

Each operator changes a view in the same way as it changes the sequence.  Filters and sorts demand
that the scope is not paged.  Closing a scope changes the view; it keeps the sequence of a paged
scope, and of any other scope it would forget the keys in force.
-/

namespace QueryPlan
namespace Semantics

open Compile (Compiler)
open Sql (Context Scope Shape Slot Term)

variable {V : Type}

/-! ## Elements and columns -/

section Columns

variable {I : Interpretation V} {v : Valuation V}

/-- The columns of a shape are the output of its element. -/
theorem columns_of_element {shape : Shape} {element : Element V}
    (h : element? I v shape = some element) : columns? I v shape.columns = some element.output := by
  cases shape with
  | members members =>
      rcases Option.bind_eq_some_iff.1 h with ⟨fields, hfields, hpure⟩
      cases hpure
      rw [columns?, Shape.columns, List.mapM_map]
      exact hfields
  | scalar τ =>
      rcases Option.bind_eq_some_iff.1 h with ⟨x, hx, hpure⟩
      cases hpure
      simp [columns?, Shape.columns, Element.output, hx]

/-- Fields are named after the members. -/
theorem names_of_fields {members : List (String × Term)} {fields : List (String × V)}
    (h : members.mapM (fun m => do return (m.1, ← value? I v m.2)) = some fields) :
    fields.map (·.1) = members.map (·.1) := by
  induction members generalizing fields with
  | nil =>
      cases h
      rfl
  | cons m rest ih =>
      rcases cons_of_mapM h with ⟨field, others, hfield, hothers, rfl⟩
      rcases Option.bind_eq_some_iff.1 hfield with ⟨x, -, hpure⟩
      cases hpure
      rw [List.map_cons, List.map_cons, ih hothers]

theorem lookup_of_mem {fields : List (String × V)} (distinct : (fields.map (·.1)).Nodup)
    {field : String × V} (h : field ∈ fields) : fields.lookup field.1 = some field.2 := by
  induction fields with
  | nil => cases h
  | cons first rest ih =>
      rw [List.map_cons, List.nodup_cons] at distinct
      rw [List.lookup_cons]
      rcases List.mem_cons.1 h with rfl | h
      · simp
      · have hne : (field.1 == first.1) = false := by
          rw [beq_eq_false_iff_ne]
          intro heq
          exact distinct.1 (heq ▸ List.mem_map_of_mem h)
        rw [hne]
        exact ih distinct.2 h

/-- An element can be read back from its output, if the names of its columns are distinct. -/
theorem element_through {shape : Shape} {element : Element V} (h : element? I v shape = some element)
    (distinct : DistinctColumns shape) (params : List V) (source : Nat) :
    element? I ⟨params, source, fun column => element.output.lookup column⟩ (shape.through source) =
      some element := by
  cases shape with
  | members members =>
      rcases Option.bind_eq_some_iff.1 h with ⟨fields, hfields, hpure⟩
      cases hpure
      have hnames := names_of_fields hfields
      rw [DistinctColumns, Shape.columns, List.map_map] at distinct
      have hdistinct : (fields.map (·.1)).Nodup := hnames ▸ distinct
      -- The outer members are columns that are named after the fields.
      have hcolumns : (members.map fun m => (m.1, Term.column source m.1)) =
          fields.map fun f => (f.1, Term.column source f.1) := by
        have := congrArg (List.map fun name => (name, Term.column source name)) hnames
        rw [List.map_map, List.map_map] at this
        exact this.symm
      let v' : Valuation V := ⟨params, source, fun column => fields.lookup column⟩
      have hread : ∀ f ∈ fields,
          (do return (f.1, ← value? I v' (.column source f.1))) = some f := by
        intro f hf
        simp [v', value?, lookup_of_mem hdistinct hf]
      have hfields' : (members.map fun m => (m.1, Term.column source m.1)).mapM
          (fun m => do return (m.1, ← value? I v' m.2)) = some fields := by
        calc (members.map fun m => (m.1, Term.column source m.1)).mapM
              (fun m => do return (m.1, ← value? I v' m.2))
            = (fields.map fun f => (f.1, Term.column source f.1)).mapM
                (fun m => do return (m.1, ← value? I v' m.2)) := by rw [hcolumns]
          _ = fields.mapM fun f => do return (f.1, ← value? I v' (.column source f.1)) := by
                rw [List.mapM_map]
                rfl
          _ = some (fields.map fun f => f) := mapM_eq_some hread
          _ = some fields := by rw [List.map_id']
      rw [Shape.through, element?, Element.output, hfields']
      rfl
  | scalar τ =>
      rcases Option.bind_eq_some_iff.1 h with ⟨x, hx, hpure⟩
      cases hpure
      simp [Shape.through, element?, value?, Element.output]

end Columns

/-! ## Views -/

/-- The rows that the current scope of a context reads, and what the context makes of each. -/
structure View (V : Type) where
  source : Nat
  rows : List (String → Option V)
  element : (String → Option V) → Element V
  keep : (String → Option V) → Bool
  key : (String → Option V) → List (V × Bool)
  skip : Option Nat
  take : Option Nat

namespace View

variable (I : Interpretation V) (db : Database V) (params : List V) (view : View V)

/-- The kept rows in order. -/
def ordered : List (String → Option V) :=
  (view.rows.filter view.keep).mergeSort fun a b => I.leKeys (view.key a) (view.key b)

/-- The rows that the scope yields. -/
def yields : List (String → Option V) :=
  page view.skip view.take (view.ordered I)

/-- Whether a bound applies. -/
def isPaged : Bool :=
  view.take.isSome || view.skip.isSome

/-- The sequence that a view stands for. -/
def sequence : Sequence V :=
  if view.isPaged then
    .ofElements ((view.yields I).map view.element)
  else
    ⟨(view.rows.filter view.keep).map fun row => (view.element row, view.key row)⟩

/-- A view of a context: every part of the context is defined on every row. -/
structure Describes (ctx : Context) : Prop where
  reads : ∃ outputs, outputs? I db params ctx.inner = some outputs ∧
    outputs.length = ctx.inner.length ∧
    reads? db outputs ctx.current = some (view.source, view.rows)
  element : ∀ row ∈ view.rows,
    element? I ⟨params, view.source, row⟩ ctx.shape = some (view.element row)
  keep : ∀ row ∈ view.rows, keeps? I ⟨params, view.source, row⟩ ctx.current = some (view.keep row)
  key : ∀ row ∈ view.rows, keys? I ⟨params, view.source, row⟩ ctx.current = some (view.key row)
  skip : bound? I params ctx.current.skip = some view.skip
  take : bound? I params ctx.current.take = some view.take
  distinct : DistinctColumns ctx.shape

end View

section Views

variable {I : Interpretation V} {db : Database V} {params : List V} {view : View V} {ctx : Context}

theorem sequence_of_paged (h : view.isPaged = true) :
    view.sequence I = .ofElements ((view.yields I).map view.element) := by
  rw [View.sequence, if_pos h]

theorem sequence_of_not_paged (h : view.isPaged = false) :
    view.sequence I =
      ⟨(view.rows.filter view.keep).map fun row => (view.element row, view.key row)⟩ := by
  rw [View.sequence, if_neg (by simp [h])]

theorem bounds_of_not_paged (h : view.isPaged = false) : view.take = none ∧ view.skip = none := by
  simpa [View.isPaged] using h

theorem mem_rows_of_mem_yields {row : String → Option V} (h : row ∈ view.yields I) :
    row ∈ view.rows :=
  (List.mem_filter.1 (List.mem_mergeSort.1 (mem_of_mem_page h))).1

/-- In order, the sequence of a view has the elements of the rows that the scope yields. -/
theorem elements_sequence : (view.sequence I).elements I = (view.yields I).map view.element := by
  unfold View.sequence
  split
  · exact Sequence.elements_ofElements _
  · next notPaged =>
      rcases bounds_of_not_paged (Bool.eq_false_iff.2 notPaged) with ⟨htake, hskip⟩
      have hyields : view.yields I = view.ordered I := by
        rw [View.yields, htake, hskip]
        rfl
      -- Sorting elements with their keys is sorting rows by the keys.
      calc (((view.rows.filter view.keep).map fun row => (view.element row, view.key row)).mergeSort
              fun a b => I.leKeys a.2 b.2).map (·.1)
          = ((view.ordered I).map fun row => (view.element row, view.key row)).map (·.1) := by
              rw [← map_mergeSort]
              rfl
        _ = (view.ordered I).map view.element := by
              rw [List.map_map]
              rfl
        _ = (view.yields I).map view.element := by rw [hyields]

/-- A scope yields the output of the sequence, once the element shape is selected from it. -/
theorem output_of_describes (h : view.Describes I db params ctx) {columns : List Sql.Column}
    (hcolumns : columns = ctx.shape.columns) :
    ∃ outputs, outputs? I db params ctx.inner = some outputs ∧
      outputs.length = ctx.inner.length ∧
      output? I db params outputs { ctx.current with columns } =
        some (((view.sequence I).elements I).map Element.output) := by
  rcases h.reads with ⟨outputs, houtputs, hlength, hreads⟩
  refine ⟨outputs, houtputs, hlength, ?_⟩
  -- Neither the source nor the parent of a scope depends on its columns.
  have hreads' : reads? db outputs { ctx.current with columns } = some (view.source, view.rows) :=
    hreads
  have houtput : ∀ row ∈ view.rows, columns? I ⟨params, view.source, row⟩ columns =
      some (view.element row).output := by
    intro row hrow
    rw [hcolumns]
    exact columns_of_element (h.element row hrow)
  have hselect : select? I params { ctx.current with columns } view.source view.rows =
      some ((view.yields I).map fun row => (view.element row).output) :=
    select_eq_some I params h.keep h.key h.skip h.take houtput
  rw [output?, hreads', elements_sequence, List.map_map]
  exact hselect

/-! ## Closing a scope -/

/-- The row that the output of an element makes. -/
def rowOf (element : Element V) : String → Option V :=
  fun column => element.output.lookup column

/-- The view of a scope that reads the output of elements through a shape. -/
def View.through (I : Interpretation V) (params : List V) (source : Nat) (shape : Shape)
    (elements : List (Element V)) : View V where
  source := source
  rows := elements.map rowOf
  element := fun row => (element? I ⟨params, source, row⟩ shape).getD (.record [])
  keep := fun _ => true
  key := fun _ => []
  skip := none
  take := none

theorem distinctColumns_through {shape : Shape} (h : DistinctColumns shape) (source : Nat) :
    DistinctColumns (shape.through source) := by
  cases shape with
  | members members =>
      simp only [DistinctColumns, Shape.columns, Shape.through, List.map_map] at h ⊢
      exact h
  | scalar τ => exact distinctColumns_scalar _

/-- A scope that is closed yields its elements, in order, to the next one. -/
theorem wrap_describes (h : view.Describes I db params ctx) :
    ∃ view' : View V, view'.Describes I db params ctx.wrap ∧
      view'.sequence I = .ofElements ((view.sequence I).elements I) ∧
      view'.isPaged = false := by
  -- The closed scope selects the columns of the shape, and these give its elements as rows.
  rcases output_of_describes h rfl with ⟨outputs, houtputs, hlength, houtput⟩
  have helements : ∀ element ∈ (view.sequence I).elements I,
      element? I ⟨params, ctx.currentId, rowOf element⟩ (ctx.shape.through ctx.currentId) =
        some element := by
    intro element helement
    rw [elements_sequence, List.mem_map] at helement
    rcases helement with ⟨row, hrow, rfl⟩
    exact element_through (h.element row (mem_rows_of_mem_yields hrow)) h.distinct _ _
  refine ⟨.through I params ctx.currentId (ctx.shape.through ctx.currentId)
    ((view.sequence I).elements I), ?_, ?_, rfl⟩
  · refine ⟨⟨_, outputs_append I db params houtputs houtput, ?_, ?_⟩, ?_, fun _ _ => rfl,
      fun _ _ => rfl, rfl, rfl, distinctColumns_through h.distinct _⟩
    · simp [Context.wrap, hlength]
    · -- The new scope reads the output that was added last.
      have hindex : (outputs ++ [((view.sequence I).elements I).map Element.output])[ctx.currentId]? =
          some (((view.sequence I).elements I).map Element.output) := by
        rw [Context.currentId, ← hlength]
        exact List.getElem?_concat_length
      refine (reads_ofParent db hindex).trans ?_
      rw [List.map_map]
      rfl
    · intro row hrow
      rcases List.mem_map.1 hrow with ⟨element, helement, rfl⟩
      have := helements element helement
      simp only [View.through, Context.wrap, this, Option.getD_some]
  · rw [sequence_of_not_paged rfl, Sequence.ofElements]
    have hrows : (((view.sequence I).elements I).map rowOf).filter (fun _ => true) =
        ((view.sequence I).elements I).map rowOf :=
      List.filter_eq_self.2 fun _ _ => rfl
    simp only [View.through, hrows, List.map_map]
    refine congrArg Sequence.mk (List.map_congr_left fun element helement => ?_)
    simp only [Function.comp_apply, helements element helement, Option.getD_some]

/-- A bound has a value where there is a bound. -/
theorem isSome_of_bound {bound : Option Term} {n : Option Nat} (h : bound? I params bound = some n) :
    bound.isSome = n.isSome := by
  cases bound with
  | none =>
      cases h
      rfl
  | some τ =>
      rcases Option.bind_eq_some_iff.1 h with ⟨x, -, hpure⟩
      cases hpure
      rfl

theorem isPaged_of_describes (h : view.Describes I db params ctx) :
    ctx.current.isPaged = view.isPaged := by
  rw [Scope.isPaged, View.isPaged, isSome_of_bound h.take, isSome_of_bound h.skip]

/-- Closing a paged scope keeps the sequence, so that filters and sorts can follow. -/
theorem close_paged (h : view.Describes I db params ctx) :
    ∃ view' : View V, view'.Describes I db params (ctx.wrapIf ctx.current.isPaged) ∧
      view'.sequence I = view.sequence I ∧ view'.isPaged = false := by
  rw [isPaged_of_describes h]
  cases hpaged : view.isPaged with
  | false => exact ⟨view, h, rfl, hpaged⟩
  | true =>
      rcases wrap_describes h with ⟨view', h', hsequence, hopen⟩
      refine ⟨view', h', ?_, hopen⟩
      rw [hsequence, sequence_of_paged hpaged, Sequence.elements_ofElements]

/-- Closing a scope that is limited already keeps the sequence, so that a limit can follow. -/
theorem close_limited (h : view.Describes I db params ctx) :
    ∃ view' : View V, view'.Describes I db params (ctx.wrapIf ctx.current.take.isSome) ∧
      view'.sequence I = view.sequence I ∧ view'.take = none := by
  rw [isSome_of_bound h.take]
  cases htake : view.take with
  | none => exact ⟨view, h, rfl, htake⟩
  | some n =>
      have hpaged : view.isPaged = true := by
        rw [View.isPaged, htake]
        rfl
      rcases wrap_describes h with ⟨view', h', hsequence, hopen⟩
      refine ⟨view', h', ?_, (bounds_of_not_paged hopen).1⟩
      rw [hsequence, sequence_of_paged hpaged, Sequence.elements_ofElements]

/-! ## Filters -/

/-- Keep the rows whose element satisfies a test. -/
def View.filter (view : View V) (test : Element V → Option Bool) : View V :=
  { view with keep := fun row => view.keep row && (test (view.element row)).getD false }

theorem sequence_filter (test : Element V → Option Bool) (h : view.isPaged = false)
    (defined : ∀ row ∈ view.rows, (test (view.element row)).isSome) :
    (view.sequence I).filter? test = some ((view.filter test).sequence I) := by
  have hfilter : (view.filter test).isPaged = false := h
  have hkept : keep? (fun a => test a.1)
      ((view.rows.filter view.keep).map fun row => (view.element row, view.key row)) =
      some (((view.rows.filter view.keep).map fun row => (view.element row, view.key row)).filter
        fun a => (test a.1).getD false) := by
    apply keep?_eq_some
    intro a ha
    rcases List.mem_map.1 ha with ⟨row, hrow, rfl⟩
    rcases Option.isSome_iff_exists.1 (defined row (List.mem_filter.1 hrow).1) with ⟨holds, htest⟩
    simp [htest]
  -- Rows are tested in the order in which the filters were added.
  have hboth : (fun row => (test (view.element row)).getD false && view.keep row) =
      (view.filter test).keep := by
    funext row
    exact Bool.and_comm _ _
  rw [sequence_of_not_paged h, sequence_of_not_paged hfilter, ← hboth, Sequence.filter?, hkept,
    List.filter_map, List.filter_filter]
  rfl

/-- A row satisfies an extended filter if it satisfies the filter and the added predicate. -/
theorem keeps_addFilter {v : Valuation V} {scope : Scope} {τ : Term} {holds : Bool} {x : V}
    (hscope : keeps? I v scope = some holds) (hterm : value? I v τ = some x) :
    keeps? I v (Compiler.addFilter scope τ) = some (holds && I.truth x) := by
  unfold Compiler.addFilter
  cases hfilter : scope.filter with
  | none =>
      rw [keeps?, hfilter] at hscope
      cases hscope
      simp [keeps?, hterm]
  | some existing =>
      rw [keeps?, hfilter] at hscope
      rcases Option.bind_eq_some_iff.1 hscope with ⟨y, hy, hpure⟩
      cases hpure
      simp [keeps?, value?, hy, hterm, I.truth_and]

theorem filter_describes (h : view.Describes I db params ctx) {τ : Term}
    (test : Element V → Option Bool)
    (agree : ∀ row ∈ view.rows, ∃ x, value? I ⟨params, view.source, row⟩ τ = some x ∧
      test (view.element row) = some (I.truth x)) (slots : List Slot) :
    (view.filter test).Describes I db params
      { ctx with current := Compiler.addFilter ctx.current τ, slots } := by
  have hkeep : ∀ row ∈ view.rows,
      keeps? I ⟨params, view.source, row⟩ (Compiler.addFilter ctx.current τ) =
        some ((view.filter test).keep row) := by
    intro row hrow
    rcases agree row hrow with ⟨x, hx, htest⟩
    rw [keeps_addFilter (h.keep row hrow) hx]
    simp [View.filter, htest]
  -- Only the filter of the scope changes.
  have hscope : ∃ filter, Compiler.addFilter ctx.current τ = { ctx.current with filter } := by
    unfold Compiler.addFilter
    split <;> exact ⟨_, rfl⟩
  rcases hscope with ⟨filter, hscope⟩
  rw [hscope] at hkeep ⊢
  exact ⟨h.reads, h.element, hkeep, h.key, h.skip, h.take, h.distinct⟩

/-! ## Projections -/

/-- Replace the elements of rows. -/
def View.map (view : View V) (f : Element V → Option (Element V)) : View V :=
  { view with element := fun row => (f (view.element row)).getD (view.element row) }

theorem sequence_map (f : Element V → Option (Element V))
    (defined : ∀ row ∈ view.rows, (f (view.element row)).isSome) :
    (view.sequence I).map? f = some ((view.map f).sequence I) := by
  have hmap : ∀ row ∈ view.rows, f (view.element row) = some ((view.map f).element row) := by
    intro row hrow
    rcases Option.isSome_iff_exists.1 (defined row hrow) with ⟨element, helement⟩
    simp [View.map, helement]
  -- Elements are replaced in place, whether they are still to be sorted or already on a page.
  cases hpaged : view.isPaged with
  | true =>
      have hpaged' : (view.map f).isPaged = true := hpaged
      rw [sequence_of_paged hpaged, sequence_of_paged hpaged', Sequence.map?]
      simp only [Sequence.ofElements, List.mapM_map]
      rw [mapM_eq_some (g := fun row => ((view.map f).element row, [])) fun row hrow => by
        simp [hmap row (mem_rows_of_mem_yields hrow)]]
      simp only [List.map_map]
      rfl
  | false =>
      have hpaged' : (view.map f).isPaged = false := hpaged
      rw [sequence_of_not_paged hpaged, sequence_of_not_paged hpaged', Sequence.map?]
      simp only [List.mapM_map]
      rw [mapM_eq_some (g := fun row => ((view.map f).element row, view.key row)) fun row hrow => by
        simp [hmap row (List.mem_filter.1 hrow).1]]
      rfl

theorem map_describes (h : view.Describes I db params ctx) {shape : Shape}
    (f : Element V → Option (Element V))
    (agree : ∀ row ∈ view.rows, ∃ element,
      element? I ⟨params, view.source, row⟩ shape = some element ∧
        f (view.element row) = some element)
    (distinct : DistinctColumns shape) (element : Ty) (slots : List Slot) :
    (view.map f).Describes I db params { ctx with shape, element, slots } := by
  refine ⟨h.reads, fun row hrow => ?_, h.keep, h.key, h.skip, h.take, distinct⟩
  rcases agree row hrow with ⟨projected, hshape, hf⟩
  simp only [View.map, hf, Option.getD_some]
  exact hshape

/-! ## Sorts -/

/-- Sort the rows by a key of their elements. -/
def View.sort (view : View V) (kind : SortKind) (key : Element V → Option (List V)) : View V :=
  { view with
    key := fun row => (if kind.secondary then view.key row else []) ++
      ((key (view.element row)).getD []).map (·, kind.descending) }

theorem sequence_sort (kind : SortKind) (key : Element V → Option (List V))
    (h : view.isPaged = false) (defined : ∀ row ∈ view.rows, (key (view.element row)).isSome) :
    (view.sequence I).sort? kind.secondary kind.descending key =
      some ((view.sort kind key).sequence I) := by
  have hsort : (view.sort kind key).isPaged = false := h
  rw [sequence_of_not_paged h, sequence_of_not_paged hsort, Sequence.sort?]
  simp only [List.mapM_map]
  rw [mapM_eq_some (g := fun row => (view.element row, (view.sort kind key).key row))
    fun row hrow => by
      obtain ⟨values, hvalues⟩ := Option.isSome_iff_exists.1 (defined row (List.mem_filter.1 hrow).1)
      simp [View.sort, hvalues]]
  rfl

/-- Keys of an extended ordering are the keys in place, unless they are replaced, and the added ones. -/
theorem keys_addOrder {v : Valuation V} {scope : Scope} {kind : SortKind} {terms : List Term}
    {keys : List (V × Bool)} {xs : List V} (hscope : keys? I v scope = some keys)
    (hterms : terms.mapM (value? I v) = some xs) :
    keys? I v (Compiler.addOrder scope kind terms) =
      some ((if kind.secondary then keys else []) ++ xs.map (·, kind.descending)) := by
  have hadded : (terms.map fun term => (⟨term, kind.descending⟩ : Sql.OrderItem)).mapM
      (fun item => do return (← value? I v item.term, item.descending)) =
      some (xs.map (·, kind.descending)) := by
    clear hscope
    induction terms generalizing xs with
    | nil =>
        cases hterms
        rfl
    | cons τ rest ih =>
        rcases cons_of_mapM hterms with ⟨x, others, hx, hothers, rfl⟩
        rw [List.map_cons, List.mapM_cons, ih hothers]
        simp [hx]
  rw [keys?, Compiler.addOrder, List.mapM_append, hadded]
  rw [keys?] at hscope
  cases kind.secondary with
  | false => rfl
  | true =>
      rw [if_pos rfl, hscope]
      rfl

theorem sort_describes (h : view.Describes I db params ctx) {kind : SortKind} {terms : List Term}
    (key : Element V → Option (List V))
    (agree : ∀ row ∈ view.rows, ∃ xs,
      terms.mapM (value? I ⟨params, view.source, row⟩) = some xs ∧ key (view.element row) = some xs)
    (slots : List Slot) :
    (view.sort kind key).Describes I db params
      { ctx with current := Compiler.addOrder ctx.current kind terms, slots } := by
  refine ⟨h.reads, h.element, h.keep, fun row hrow => ?_, h.skip, h.take, h.distinct⟩
  rcases agree row hrow with ⟨xs, hterms, hkey⟩
  simp only [View.sort, hkey, Option.getD_some]
  exact keys_addOrder (h.key row hrow) hterms

/-! ## Bounds -/

theorem sequence_take (h : view.take = none) (n : Nat) :
    ({ view with take := some n }.sequence I) = (view.sequence I).take I n := by
  rw [sequence_of_paged rfl, Sequence.take, elements_sequence]
  simp only [View.yields, h, page, List.map_take]
  rfl

theorem sequence_skip (h : view.isPaged = false) (n : Nat) :
    ({ view with skip := some n }.sequence I) = (view.sequence I).skip I n := by
  rcases bounds_of_not_paged h with ⟨htake, hskip⟩
  rw [sequence_of_paged (by simp [View.isPaged]), Sequence.skip, elements_sequence]
  simp only [View.yields, htake, hskip, page, List.map_drop]
  rfl

theorem take_describes (h : view.Describes I db params ctx) {τ : Term} {x : V}
    (hterm : value? I ⟨params, 0, fun _ => none⟩ τ = some x) (slots : List Slot) :
    View.Describes I db params { view with take := some (I.count x) }
      { ctx with current := { ctx.current with take := some τ }, slots } :=
  ⟨h.reads, h.element, h.keep, h.key, h.skip, by simp [bound?, hterm], h.distinct⟩

theorem skip_describes (h : view.Describes I db params ctx) {τ : Term} {x : V}
    (hterm : value? I ⟨params, 0, fun _ => none⟩ τ = some x) (slots : List Slot) :
    View.Describes I db params { view with skip := some (I.count x) }
      { ctx with current := { ctx.current with skip := some τ }, slots } :=
  ⟨h.reads, h.element, h.keep, h.key, by simp [bound?, hterm], h.take, h.distinct⟩

end Views

end Semantics
end QueryPlan
