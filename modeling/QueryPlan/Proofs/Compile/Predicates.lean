import QueryPlan.Proofs.Compile.Places

/-!
# Predicates — what is sorted and selected

Not every dialect sorts by predicates or selects them.  What a value becomes depends on its static type
as well as on its term: a predicate of type `bool` is written as a number, under whatever wrappers it
stands, and anything else as it is.

Where sort keys and columns come from is described by `KeyTerm` and `ElementTerm`.  Both are values of
a link, in which the element stands for further terms of this kind.  A predicate is therefore
sorted or selected as it is only where it is the term of a value whose type is not `bool`.
-/

namespace QueryPlan
namespace Compile

open Sql (Context OrderItem Query Scope Shape Slot Term)

/-- What a sorted or projected value becomes. -/
inductive BecomesValue (slots : List Slot) (frame : Frame) (path : Path) (value : Expr) :
    Term → Prop where
  | number {predicate : Term} (ty : value.ty = .bool) (isPredicate : predicate.isPredicate = true)
      (converts : Converts slots frame path value predicate) :
      BecomesValue slots frame path value (.ofPredicate predicate)
  | same {τ : Term} (plain : value.ty ≠ .bool ∨ τ.isPredicate = false)
      (converts : Converts slots frame path value τ) : BecomesValue slots frame path value τ

/-- A term that stands for the element or a member of it. -/
inductive ElementTerm (slots : List Slot) (t : Expr) : Term → Prop where
  | column (scope : Nat) (name : String) : ElementTerm slots t (.column scope name)
  | projected {link : Link} {value : Expr} {frame : Frame} {path : Path} {τ : Term}
      (ofTemplate : link ∈ links t) (select : link.operator = .select) (ofLink : value ∈ link.values)
      (element : ∀ σ ∈ frame.shape.terms, ElementTerm slots t σ)
      (becomes : BecomesValue slots frame path value τ) : ElementTerm slots t τ

/-- A term that a link sorts by. -/
inductive KeyTerm (slots : List Slot) (t : Expr) : Term → Prop where
  | sorted {link : Link} {kind : SortKind} {value : Expr} {frame : Frame} {path : Path} {τ : Term}
      (ofTemplate : link ∈ links t) (sort : SortKind.ofOperator? link.operator = some kind)
      (ofLink : value ∈ link.values) (element : ∀ σ ∈ frame.shape.terms, ElementTerm slots t σ)
      (becomes : BecomesValue slots frame path value τ) : KeyTerm slots t τ

section Values

variable {slots : List Slot} {frame : Frame} {path : Path} {value : Expr} {τ : Term}

theorem becomesValue_of_converts (h : Converts slots frame path value τ) :
    BecomesValue slots frame path value (asValue value.ty τ) := by
  unfold asValue
  split
  · next predicate =>
      have both : value.ty = .bool ∧ τ.isPredicate = true := by simpa using predicate
      exact .number both.1 both.2 h
  · next plain =>
      refine .same ?_ h
      by_cases hty : value.ty = .bool
      · right
        simpa [hty] using plain
      · left
        exact hty

/-- What a predicate of type `bool` becomes is none. -/
theorem BecomesValue.of_isPredicate (h : BecomesValue slots frame path value τ)
    (predicate : τ.isPredicate = true) :
    value.ty ≠ .bool ∧ Converts slots frame path value τ := by
  cases h with
  | number ty isPredicate converts => cases predicate
  | same plain converts =>
      rcases plain with hty | notPredicate
      · exact ⟨hty, converts⟩
      · simp [notPredicate] at predicate

end Values

/-! ## Sort keys and columns -/

/-- The places of sort keys and columns; any term may stand in the other ones. -/
def sources (slots : List Slot) (t : Expr) : Places where
  filter := fun _ => True
  key := KeyTerm slots t
  column := ElementTerm slots t
  bound := fun _ => True

theorem sources_keptBy {slots : List Slot} {t : Expr} {link : Link} (hlink : link ∈ links t) :
    (sources slots t).KeptBy slots link := by
  constructor
  case filter => exact fun _ _ _ _ _ _ _ _ _ => trivial
  case key =>
    rintro ⟨kind, sort⟩ value hvalue frame path τ element hτ
    exact .sorted hlink sort hvalue element (becomesValue_of_converts hτ)
  case column =>
    intro select value hvalue frame path τ element hτ
    exact .projected hlink select hvalue element (becomesValue_of_converts hτ)
  case bound => exact fun _ _ _ _ _ _ => trivial

theorem ElementTerm.of_isPredicate {slots : List Slot} {t : Expr} {τ : Term}
    (h : ElementTerm slots t τ) (predicate : τ.isPredicate = true) :
    ∃ link ∈ links t, link.operator = .select ∧ ∃ value ∈ link.values, value.ty ≠ .bool ∧
      ∃ frame path, Converts slots frame path value τ := by
  cases h with
  | column scope name => cases predicate
  | @projected link value frame path τ ofTemplate select ofLink element becomes =>
      rcases becomes.of_isPredicate predicate with ⟨hty, hτ⟩
      exact ⟨link, ofTemplate, select, value, ofLink, hty, frame, path, hτ⟩

theorem KeyTerm.of_isPredicate {slots : List Slot} {t : Expr} {τ : Term}
    (h : KeyTerm slots t τ) (predicate : τ.isPredicate = true) :
    ∃ link ∈ links t, (SortKind.ofOperator? link.operator).isSome ∧
      ∃ value ∈ link.values, value.ty ≠ .bool ∧ ∃ frame path, Converts slots frame path value τ := by
  cases h with
  | @sorted link kind value frame path τ ofTemplate sort ofLink element becomes =>
      rcases becomes.of_isPredicate predicate with ⟨hty, hτ⟩
      exact ⟨link, ofTemplate, by simp [sort], value, ofLink, hty, frame, path, hτ⟩

/-- Every sort key and column of a compiled query is what a sorted or projected value becomes, so that a
predicate among them is the term of such a value whose type is not `bool`. -/
theorem predicates_become_values (rules : List Rule) (schema : Schema) (t : Expr) {query : Query}
    (h : (⟨rules, schema, t⟩ : Compiler).query = .ok query) :
    ∀ scope ∈ query.scopes,
      (∀ item ∈ scope.orderBy, KeyTerm query.slots t item.term ∧
        (item.term.isPredicate = true →
          ∃ link ∈ links t, (SortKind.ofOperator? link.operator).isSome ∧
            ∃ value ∈ link.values, value.ty ≠ .bool ∧
              ∃ frame path, Converts query.slots frame path value item.term)) ∧
      ∀ column ∈ scope.columns, ElementTerm query.slots t column.term ∧
        (column.term.isPredicate = true →
          ∃ link ∈ links t, link.operator = .select ∧
            ∃ value ∈ link.values, value.ty ≠ .bool ∧
              ∃ frame path, Converts query.slots frame path value column.term) := by
  have closed : (sources query.slots t).Closed := ⟨ElementTerm.column, fun _ _ _ _ => trivial⟩
  intro scope hscope
  have hold : (sources query.slots t).HoldIn scope :=
    Places.holdIn_of_query closed h (fun _ hlink => sources_keptBy hlink) scope hscope
  constructor
  · intro item hitem
    have key : KeyTerm query.slots t item.term := hold.keys item hitem
    exact ⟨key, key.of_isPredicate⟩
  · intro column hcolumn
    have element : ElementTerm query.slots t column.term := hold.columns column hcolumn
    exact ⟨element, element.of_isPredicate⟩

/-- People by whether they are older than thirty, with a conversion to a type around the test. -/
def Sample.elders (ty : Ty) : Expr :=
  let people : Expr := ⟨51, .table element, .constant (.table ⟨person, element⟩)⟩
  let x : Expr := ⟨52, element, .parameter "x"⟩
  let ageOf : Expr := ⟨53, .int32, .member ⟨element, "age", .int32⟩ (some x)⟩
  let thirty : Expr := ⟨54, .int32, .constant (.int 30)⟩
  let old : Expr := ⟨55, .bool, .binary .greaterThan none ageOf thirty none⟩
  let key : Expr := ⟨57, .unit, .lambda [⟨"x", element⟩] ⟨56, ty, .unary .convert none old⟩⟩
  ⟨58, .queryable element, .call Operator.orderBy.method none [people, key]⟩

/-- Under a conversion to its own type, the test is sorted by as a number. -/
theorem elders_become_numbers :
    ∃ query, (⟨Rule.all, Sample.schema, Sample.elders .bool⟩ : Compiler).query = .ok query ∧
      query.root.orderBy.map (·.term) =
        [.ofPredicate (.binary .greaterThan (.column 0 "age") (.literal (.int 30)))] ∧
      ∀ item ∈ query.root.orderBy, KeyTerm query.slots (Sample.elders .bool) item.term := by
  obtain ⟨query, hquery, horder⟩ :
      ∃ query, (⟨Rule.all, Sample.schema, Sample.elders .bool⟩ : Compiler).query = .ok query ∧
        query.root.orderBy.map (·.term) =
          [.ofPredicate (.binary .greaterThan (.column 0 "age") (.literal (.int 30)))] :=
    Compiler.exists_query_of_view (by decide +kernel)
  have hroot : query.root ∈ query.scopes := by simp [Query.scopes]
  have keys := (predicates_become_values Rule.all Sample.schema _ hquery query.root hroot).1
  exact ⟨query, hquery, horder, fun item hitem => (keys item hitem).1⟩

/-- Under a conversion to another type, the test is sorted by as it is. -/
theorem predicates_sorted_under_conversions :
    ¬ ∀ (rules : List Rule) (schema : Schema) (t : Expr) (query : Query),
      (⟨rules, schema, t⟩ : Compiler).query = .ok query →
        ∀ scope ∈ query.scopes,
          (∀ item ∈ scope.orderBy, item.term.isPredicate = false) ∧
            ∀ column ∈ scope.columns, column.term.isPredicate = false := by
  intro claimed
  obtain ⟨query, hquery, horder⟩ :
      ∃ query, (⟨Rule.all, Sample.schema, Sample.elders .int32⟩ : Compiler).query = .ok query ∧
        query.root.orderBy.map (·.term) =
          [.binary .greaterThan (.column 0 "age") (.literal (.int 30))] :=
    Compiler.exists_query_of_view (by decide +kernel)
  have hroot : query.root ∈ query.scopes := by simp [Query.scopes]
  have plain := (claimed _ _ _ query hquery query.root hroot).1
  rcases List.map_eq_singleton_iff.1 horder with ⟨item, hitem, hterm⟩
  have notPredicate := plain item (by simp [hitem])
  rw [hterm] at notPredicate
  cases notPredicate

end Compile
end QueryPlan
