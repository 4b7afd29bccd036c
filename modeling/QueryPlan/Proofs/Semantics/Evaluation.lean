import QueryPlan.Sql.Context

/-!
# Evaluation — what a query yields

A finished query is evaluated scope by scope on lists.  A scope takes the rows of its table or of its
parent scope, keeps those that satisfy its filter, sorts them stably, drops and takes as many as its
bounds say, and reads its columns from each.

Operators are interpreted over any type of values (`Interpretation`), as long as predicates have two
values.  Evaluation is partial only where a query is not well formed: a column that is not in scope, a
parameter without a value, a scope that reads nothing.
-/

namespace QueryPlan
namespace Semantics

open Sql (Column Query Scope Shape Term)

/-! ## Values -/

/-- A two-valued interpretation of values and operators: predicates give one or zero, equality treats
nulls as ordinary values, and a null test is a comparison with null. -/
structure Interpretation (V : Type) where
  literal : Value → V
  binary : Sql.BinaryOp → V → V → V
  not : V → V
  negate : V → V
  isNull : V → Bool → V
  /-- Whether a value counts as true. -/
  truth : V → Bool
  /-- The order that sorts compare by. -/
  le : V → V → Bool
  /-- The number of rows that a bound stands for. -/
  count : V → Nat
  truth_one : truth (literal (.int 1)) = true
  truth_zero : truth (literal (.int 0)) = false
  binary_flag : ∀ op a b, op.isPredicate = true →
    binary op a b = literal (.int 1) ∨ binary op a b = literal (.int 0)
  not_flag : ∀ a, not a = literal (.int 1) ∨ not a = literal (.int 0)
  isNull_flag : ∀ a negated, isNull a negated = literal (.int 1) ∨ isNull a negated = literal (.int 0)
  truth_and : ∀ a b, truth (binary .and a b) = (truth a && truth b)
  equal_eq : ∀ a b, binary .equal a b = binary .notDistinctFrom a b
  notEqual_eq : ∀ a b, binary .notEqual a b = binary .distinctFrom a b
  isNull_right : ∀ a, isNull a false = binary .equal a (literal .null)
  isNull_left : ∀ a, isNull a false = binary .equal (literal .null) a
  isNotNull_right : ∀ a, isNull a true = binary .notEqual a (literal .null)
  isNotNull_left : ∀ a, isNull a true = binary .notEqual (literal .null) a

namespace Interpretation

variable {V : Type} (I : Interpretation V)

/-- Comparison of two sort keys with their directions, which are the same within one sort. -/
def leKey : V × Bool → V × Bool → Bool
  | (a, false), (b, false) => I.le a b
  | (a, true), (b, true) => I.le b a
  | (_, descending), _ => !descending

/-- Lexicographic comparison of lists of sort keys. -/
def leKeys : List (V × Bool) → List (V × Bool) → Bool
  | [], _ => true
  | _ :: _, [] => false
  | a :: as, b :: bs => if I.leKey a b && I.leKey b a then leKeys as bs else I.leKey a b

/-- An interpretation whose order is total and transitive. -/
structure Ordered : Prop where
  total : ∀ a b, (I.le a b || I.le b a) = true
  trans : ∀ a b c, I.le a b = true → I.le b c = true → I.le a c = true

variable {I}

theorem Ordered.leKey_total (h : I.Ordered) (a b : V × Bool) :
    (I.leKey a b || I.leKey b a) = true := by
  rcases a with ⟨x, d⟩
  rcases b with ⟨y, e⟩
  cases d <;> cases e
  · exact h.total x y
  · rfl
  · rfl
  · exact h.total y x

theorem Ordered.leKey_trans (h : I.Ordered) (a b c : V × Bool) (hab : I.leKey a b = true)
    (hbc : I.leKey b c = true) : I.leKey a c = true := by
  rcases a with ⟨x, d⟩
  rcases b with ⟨y, e⟩
  rcases c with ⟨z, f⟩
  cases d <;> cases e <;> cases f <;> simp_all only [leKey, Bool.not_true, Bool.not_false, reduceCtorEq]
  · exact h.trans x y z hab hbc
  · exact h.trans z y x hbc hab

theorem Ordered.leKeys_total (h : I.Ordered) (as bs : List (V × Bool)) :
    (I.leKeys as bs || I.leKeys bs as) = true := by
  induction as generalizing bs with
  | nil => rfl
  | cons a as ih =>
      cases bs with
      | nil => rfl
      | cons b bs =>
          have total := h.leKey_total a b
          have rest := ih bs
          -- Equal first keys leave the decision to the others.
          simp only [leKeys]
          cases hab : I.leKey a b <;> cases hba : I.leKey b a <;> simp_all

theorem Ordered.leKeys_trans (h : I.Ordered) (as bs cs : List (V × Bool))
    (hab : I.leKeys as bs = true) (hbc : I.leKeys bs cs = true) : I.leKeys as cs = true := by
  induction as generalizing bs cs with
  | nil => rfl
  | cons a as ih =>
      cases bs with
      | nil => cases hab
      | cons b bs =>
          cases cs with
          | nil => cases hbc
          | cons c cs =>
              -- Keys that are equal in the order may be exchanged in a comparison with a third one.
              have habc := h.leKey_trans a b c
              have hcba := h.leKey_trans c b a
              have hbca := h.leKey_trans b c a
              have hcab := h.leKey_trans c a b
              have rest := ih bs cs
              simp only [leKeys] at hab hbc ⊢
              grind

end Interpretation

/-- What the terms of a scope refer to: values of the parameters, and a row of the scope's source under
the source's index. -/
structure Valuation (V : Type) where
  params : List V
  source : Nat
  row : String → Option V

/-- One row of output: a value for each column, in select order. -/
abbrev Output (V : Type) := List (String × V)

/-- The contents of tables: each row gives a value to every column. -/
abbrev Database (V : Type) := TableSource → List (String → V)

/-! ## Lists -/

section Lists

variable {α β : Type}

/-- The entries that satisfy a partial test, if it is defined on every entry. -/
def keep? (test : α → Option Bool) : List α → Option (List α)
  | [] => some []
  | a :: rest => do
      let holds ← test a
      let kept ← keep? test rest
      return if holds then a :: kept else kept

theorem keep?_eq_some {test : α → Option Bool} {f : α → Bool} {l : List α}
    (h : ∀ a ∈ l, test a = some (f a)) : keep? test l = some (l.filter f) := by
  induction l with
  | nil => rfl
  | cons a rest ih =>
      rw [List.forall_mem_cons] at h
      rw [keep?, h.1, ih h.2, List.filter_cons]
      rfl

/-- A partial test by which entries were kept is defined on all entries. -/
theorem eq_of_keep {test : α → Option Bool} {l kept : List α} (h : keep? test l = some kept) :
    (∀ a ∈ l, test a = some ((test a).getD false)) ∧
      kept = l.filter fun a => (test a).getD false := by
  have defined : ∀ a ∈ l, test a = some ((test a).getD false) := by
    induction l generalizing kept with
    | nil => simp
    | cons a rest ih =>
        rw [keep?] at h
        rcases Option.bind_eq_some_iff.1 h with ⟨holds, htest, h⟩
        rcases Option.bind_eq_some_iff.1 h with ⟨others, hothers, -⟩
        exact List.forall_mem_cons.2 ⟨by rw [htest, Option.getD_some], ih hothers⟩
  exact ⟨defined, Option.some.inj (h.symm.trans (keep?_eq_some defined))⟩

theorem mapM_eq_some {f : α → Option β} {g : α → β} {l : List α}
    (h : ∀ a ∈ l, f a = some (g a)) : l.mapM f = some (l.map g) := by
  induction l with
  | nil => rfl
  | cons a rest ih =>
      rw [List.forall_mem_cons] at h
      rw [List.mapM_cons, h.1, ih h.2]
      rfl

theorem cons_of_mapM {f : α → Option β} {a : α} {l : List α} {l' : List β}
    (h : (a :: l).mapM f = some l') :
    ∃ b rest, f a = some b ∧ l.mapM f = some rest ∧ l' = b :: rest := by
  rw [List.mapM_cons] at h
  rcases Option.bind_eq_some_iff.1 h with ⟨b, hb, h⟩
  rcases Option.bind_eq_some_iff.1 h with ⟨rest, hrest, hpure⟩
  cases hpure
  exact ⟨b, rest, hb, hrest, rfl⟩

theorem length_of_mapM {f : α → Option β} {l : List α} {l' : List β} (h : l.mapM f = some l') :
    l'.length = l.length := by
  induction l generalizing l' with
  | nil =>
      cases h
      rfl
  | cons a rest ih =>
      rcases cons_of_mapM h with ⟨b, others, -, hothers, rfl⟩
      rw [List.length_cons, List.length_cons, ih hothers]

/-- A partial function by which entries were replaced is defined on all entries. -/
theorem eq_of_mapM {γ : Type} {f : α → Option γ} {g : α → γ → β} {l : List α} {l' : List β}
    (default : α → γ) (h : (l.mapM fun a => do return g a (← f a)) = some l') :
    (∀ a ∈ l, f a = some ((f a).getD (default a))) ∧
      l' = l.map fun a => g a ((f a).getD (default a)) := by
  have defined : ∀ a ∈ l, f a = some ((f a).getD (default a)) := by
    induction l generalizing l' with
    | nil => simp
    | cons a rest ih =>
        rcases cons_of_mapM h with ⟨b, others, hb, hothers, -⟩
        rcases Option.bind_eq_some_iff.1 hb with ⟨c, hc, -⟩
        exact List.forall_mem_cons.2 ⟨by rw [hc, Option.getD_some], ih hothers⟩
  refine ⟨defined, Option.some.inj (h.symm.trans (mapM_eq_some fun a ha => ?_))⟩
  rw [defined a ha]
  rfl

/-- Sorting entries by a property of them is sorting the properties. -/
theorem map_mergeSort (f : α → β) (le : β → β → Bool) (l : List α) :
    (l.mergeSort fun a b => le (f a) (f b)).map f = (l.map f).mergeSort le :=
  List.map_mergeSort fun _ _ _ _ => rfl

/-- Drop and take as many entries as bounds say, if there are any. -/
def page (skip take : Option Nat) (l : List α) : List α :=
  match take with
  | some n => (l.drop (skip.getD 0)).take n
  | none => l.drop (skip.getD 0)

theorem mem_of_mem_page {a : α} {skip take : Option Nat} {l : List α} (h : a ∈ page skip take l) :
    a ∈ l := by
  cases take with
  | none => exact List.mem_of_mem_drop h
  | some n => exact List.mem_of_mem_drop (List.mem_of_mem_take h)

end Lists

/-! ## Terms and shapes -/

section Terms

variable {V : Type} (I : Interpretation V) (v : Valuation V)

/-- The value of a term. -/
def value? : Term → Option V
  | .column source name => if source = v.source then v.row name else none
  | .literal value => some (I.literal value)
  | .param index => v.params[index]?
  | .binary op left right => do return I.binary op (← value? left) (← value? right)
  | .not operand => do return I.not (← value? operand)
  | .negate operand => do return I.negate (← value? operand)
  | .isNull operand negated => do return I.isNull (← value? operand) negated
  | .caseWhen test ifTrue ifFalse => do
      let c ← value? test
      let a ← value? ifTrue
      let b ← value? ifFalse
      return if I.truth c then a else b

/-- The values of a list of columns. -/
def columns? (columns : List Column) : Option (Output V) :=
  columns.mapM fun c => do return (c.name, ← value? I v c.term)

/-- Whether a row satisfies the filter of a scope. -/
def keeps? (scope : Scope) : Option Bool :=
  match scope.filter with
  | some filter => do return I.truth (← value? I v filter)
  | none => some true

/-- The sort keys of a row in a scope, with their directions. -/
def keys? (scope : Scope) : Option (List (V × Bool)) :=
  scope.orderBy.mapM fun item => do return (← value? I v item.term, item.descending)

end Terms

/-! ## Scopes and queries -/

section Queries

variable {V : Type} (I : Interpretation V) (db : Database V) (params : List V)

/-- The number of rows that a bound stands for, if there is a bound; a bound refers to no row. -/
def bound? : Option Term → Option (Option Nat)
  | some term => do return some (I.count (← value? I ⟨params, 0, fun _ => none⟩ term))
  | none => some none

/-- The output of a scope on the rows that it reads. -/
def select? (scope : Scope) (source : Nat) (rows : List (String → Option V)) :
    Option (List (Output V)) := do
  let kept ← keep? (fun row => keeps? I ⟨params, source, row⟩ scope) rows
  let keyed ← kept.mapM fun row => do return (row, ← keys? I ⟨params, source, row⟩ scope)
  let sorted := keyed.mergeSort fun a b => I.leKeys a.2 b.2
  let skip ← bound? I params scope.skip
  let take ← bound? I params scope.take
  (page skip take (sorted.map (·.1))).mapM fun row => columns? I ⟨params, source, row⟩ scope.columns

/-- A scope whose parts are defined on every row keeps, sorts, bounds and reads the rows. -/
theorem select_eq_some {scope : Scope} {source : Nat} {rows : List (String → Option V)}
    {keep : (String → Option V) → Bool} {key : (String → Option V) → List (V × Bool)}
    {output : (String → Option V) → Output V} {skip take : Option Nat}
    (hkeep : ∀ row ∈ rows, keeps? I ⟨params, source, row⟩ scope = some (keep row))
    (hkey : ∀ row ∈ rows, keys? I ⟨params, source, row⟩ scope = some (key row))
    (hskip : bound? I params scope.skip = some skip)
    (htake : bound? I params scope.take = some take)
    (houtput : ∀ row ∈ rows, columns? I ⟨params, source, row⟩ scope.columns = some (output row)) :
    select? I params scope source rows =
      some ((page skip take ((rows.filter keep).mergeSort fun a b =>
        I.leKeys (key a) (key b))).map output) := by
  have hkept := keep?_eq_some hkeep
  have hkeyed : (rows.filter keep).mapM
      (fun row => do return (row, ← keys? I ⟨params, source, row⟩ scope)) =
      some ((rows.filter keep).map fun row => (row, key row)) := by
    apply mapM_eq_some
    intro row hrow
    simp [hkey row (List.mem_filter.1 hrow).1]
  -- Rows are sorted together with their keys; the keys are then forgotten.
  have hsorted : (((rows.filter keep).map fun row => (row, key row)).mergeSort
      fun a b => I.leKeys a.2 b.2).map (·.1) =
      (rows.filter keep).mergeSort fun a b => I.leKeys (key a) (key b) := by
    rw [← map_mergeSort (fun row => (row, key row)) fun a b => I.leKeys a.2 b.2, List.map_map]
    exact List.map_id _
  rw [select?, hkept]
  simp only [Option.bind_eq_bind, Option.bind_some] at hkeyed ⊢
  rw [hkeyed]
  simp only [Option.bind_some, hskip, htake, hsorted]
  refine mapM_eq_some fun row hrow => houtput row ?_
  exact (List.mem_filter.1 (List.mem_mergeSort.1 (mem_of_mem_page hrow))).1

/-- What a scope reads, given the outputs of the scopes before it: the index of its source and the rows
found there. -/
def reads? (outputs : List (List (Output V))) (scope : Scope) :
    Option (Nat × List (String → Option V)) :=
  match scope.source, scope.parent with
  | some source, _ => some (outputs.length, (db source).map fun row column => some (row column))
  | none, some parent => do
      let rows ← outputs[parent]?
      return (parent, rows.map fun row column => row.lookup column)
  | none, none => none

theorem reads_ofParent {outputs : List (List (Output V))} {parent : Nat} {rows : List (Output V)}
    (h : outputs[parent]? = some rows) :
    reads? db outputs (.ofParent parent) =
      some (parent, rows.map fun row column => row.lookup column) := by
  simp [reads?, Scope.ofParent, h]

/-- The output of a scope, given the outputs of the scopes before it. -/
def output? (outputs : List (List (Output V))) (scope : Scope) : Option (List (Output V)) := do
  let (source, rows) ← reads? db outputs scope
  select? I params scope source rows

/-- The outputs of scopes, innermost first. -/
def outputs? (scopes : List Scope) : Option (List (List (Output V))) :=
  scopes.foldlM (fun outputs scope => do return outputs ++ [← output? I db params outputs scope]) []

/-- One more scope adds its output. -/
theorem outputs_append {scopes : List Scope} {scope : Scope} {outputs : List (List (Output V))}
    {output : List (Output V)} (h : outputs? I db params scopes = some outputs)
    (houtput : output? I db params outputs scope = some output) :
    outputs? I db params (scopes ++ [scope]) = some (outputs ++ [output]) := by
  rw [outputs?] at h ⊢
  rw [List.foldlM_append, h]
  simp [houtput]

/-- What a query yields. -/
def run? (query : Query) : Option (List (Output V)) := do
  let outputs ← outputs? I db params query.inner
  output? I db params outputs query.root

end Queries

end Semantics
end QueryPlan
