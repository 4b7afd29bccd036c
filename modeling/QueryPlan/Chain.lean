import QueryPlan.Expr.Build

/-!
# Chain — operator chains over tables

A chain wraps one operator call after another around a table literal.  The outermost call is the
operator applied last, and the chain so far is always the first argument.
-/

namespace QueryPlan

inductive Operator where
  | filter
  | select
  | orderBy
  | orderByDescending
  | thenBy
  | thenByDescending
  | take
  | skip
  deriving DecidableEq

namespace Operator

def all : List Operator :=
  [filter, select, orderBy, orderByDescending, thenBy, thenByDescending, take, skip]

def methodName : Operator → String
  | filter => "Where"
  | select => "Select"
  | orderBy => "OrderBy"
  | orderByDescending => "OrderByDescending"
  | thenBy => "ThenBy"
  | thenByDescending => "ThenByDescending"
  | take => "Take"
  | skip => "Skip"

def method (op : Operator) : Method :=
  ⟨.operators, op.methodName⟩

def ofMethod? (m : Method) : Option Operator :=
  if m.declaring = .operators then
    all.find? (·.methodName == m.name)
  else
    none

end Operator

/-- A way to sort: a primary sort replaces the ordering in place, a secondary one refines it. -/
structure SortKind where
  secondary : Bool
  descending : Bool
  deriving DecidableEq

namespace SortKind

def ofOperator? : Operator → Option SortKind
  | .orderBy => some ⟨false, false⟩
  | .orderByDescending => some ⟨false, true⟩
  | .thenBy => some ⟨true, false⟩
  | .thenByDescending => some ⟨true, true⟩
  | .filter | .select | .take | .skip => none

def operator : SortKind → Operator
  | ⟨false, false⟩ => .orderBy
  | ⟨false, true⟩ => .orderByDescending
  | ⟨true, false⟩ => .thenBy
  | ⟨true, true⟩ => .thenByDescending

end SortKind

/-- A chain of operators: its template and the static type of its elements. -/
structure Chain where
  expr : Expr
  element : Ty

namespace Chain

/-- The name of the lambda parameter that stands for an element. -/
def elementName : String :=
  "x"

def table (model : Model) (element : Ty) : Fresh Chain := do
  return ⟨← Expr.constant (.table ⟨model, element⟩) (.table element), element⟩

/-- Apply an operator with its argument, giving elements of a stated type. -/
def call (chain : Chain) (op : Operator) (argument : Expr) (element : Ty) : Fresh Chain := do
  return ⟨← Expr.call op.method (.queryable element) none [chain.expr, argument], element⟩

/-- Apply an operator to a lambda that is already built; the lambda is quoted. -/
def apply (chain : Chain) (op : Operator) (lambda : Expr) : Fresh Chain := do
  chain.call op (← Expr.quote lambda) chain.element

section Lambdas

variable {m : Type → Type} [Monad m] [MonadLiftT Fresh m]

def lambda (chain : Chain) (body : Expr → m Expr) : m Expr :=
  Expr.lambda1 elementName chain.element body

def applyWith (chain : Chain) (op : Operator) (body : Expr → m Expr) : m Chain := do
  let lambda ← chain.lambda body
  chain.apply op lambda

def filter (chain : Chain) (predicate : Expr → m Expr) : m Chain :=
  chain.applyWith .filter predicate

def select (chain : Chain) (result : Ty) (selector : Expr → m Expr) : m Chain := do
  let lambda ← chain.lambda selector
  let quoted ← Expr.quote lambda
  chain.call .select quoted result

def sortBy (chain : Chain) (kind : SortKind) (key : Expr → m Expr) : m Chain :=
  chain.applyWith kind.operator key

end Lambdas

def takeExpr (chain : Chain) (count : Expr) : Fresh Chain :=
  chain.call .take count chain.element

def take (chain : Chain) (count : Int32) : Fresh Chain := do
  chain.takeExpr (← Expr.int count)

def skipExpr (chain : Chain) (count : Expr) : Fresh Chain :=
  chain.call .skip count chain.element

def skip (chain : Chain) (count : Int32) : Fresh Chain := do
  chain.skipExpr (← Expr.int count)

end Chain

end QueryPlan
