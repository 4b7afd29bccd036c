import QueryPlan.Chain
import QueryPlan.Proofs.Semantics.Evaluation

/-!
# Sequence — what a chain yields

A chain is evaluated on elements, one operator at a time from the table outwards, without any query.
The body of a lambda is evaluated on the element that its parameter stands for.  Templates are read
here by what their nodes and method names mean, and nothing of the compiler is used.

A sequence keeps its elements in order of arrival, each with the sort keys in force for it; its
elements in order are obtained by a stable sort.  This is how the sorts of a chain combine: `OrderBy`
replaces the keys in force, `ThenBy` refines them, filters and projections keep them, and a bound
applies to the sorted elements, which then arrive in that order.  `Sequence.Acts` spells out what this
does to the elements in order.
-/

namespace QueryPlan
namespace Semantics

open Sql (Shape)

variable {V : Type}

/-! ## Elements -/

/-- An element of a sequence. -/
inductive Element (V : Type) where
  | record (fields : List (String × V))
  | scalar (value : V)

namespace Element

/-- The value of a field. -/
def field? : Element V → String → Option V
  | record fields, name => fields.lookup name
  | scalar _, _ => none

/-- The element as a row of output; a scalar is the only column. -/
def output : Element V → Output V
  | record fields => fields
  | scalar value => [(Shape.scalarName, value)]

end Element

/-- The parameter of a lambda and the element that it stands for; none outside of lambdas. -/
abbrev Bound (V : Type) := Option (String × Element V)

/-! ## Reading templates -/

/-- The operator that a method stands for, by its name. -/
def operator? (m : Method) : Option Operator :=
  if m.declaring = .operators then
    match m.name with
    | "Where" => some .filter
    | "Select" => some .select
    | "OrderBy" => some .orderBy
    | "OrderByDescending" => some .orderByDescending
    | "ThenBy" => some .thenBy
    | "ThenByDescending" => some .thenByDescending
    | "Take" => some .take
    | "Skip" => some .skip
    | _ => none
  else
    none

/-- The parameter and the body of a function of one element; quotes around it mean nothing. -/
def function? : Expr → Option (String × Expr)
  | ⟨_, _, .lambda [param] body⟩ => some (param.name, body)
  | ⟨_, _, .unary .quote _ operand⟩ => function? operand
  | _ => none
termination_by structural e => e

/-- The member that is assigned to, and the value; nothing else has a value of its own. -/
def assigned? : Binding Expr → Option (String × Expr)
  | .assign m value => some (m.name, value)
  | .nested .. | .elements .. => none

/-! ## Bodies -/

section Bodies

variable (I : Interpretation V)

/-- The operation of a template operator on values; `logical` tells truth values from bit patterns. -/
def operation? (op : BinaryOp) (logical : Bool) : Option (V → V → V) :=
  match op with
  | .add => some (I.binary .add)
  | .subtract => some (I.binary .subtract)
  | .multiply => some (I.binary .multiply)
  | .divide => some (I.binary .divide)
  | .modulo => some (I.binary .modulo)
  | .andAlso => some (I.binary .and)
  | .orElse => some (I.binary .or)
  | .and => some (I.binary (if logical then .and else .bitAnd))
  | .or => some (I.binary (if logical then .or else .bitOr))
  | .exclusiveOr => some (I.binary .bitXor)
  | .equal => some (I.binary .equal)
  | .notEqual => some (I.binary .notEqual)
  | .lessThan => some (I.binary .lessThan)
  | .lessThanOrEqual => some (I.binary .lessThanOrEqual)
  | .greaterThan => some (I.binary .greaterThan)
  | .greaterThanOrEqual => some (I.binary .greaterThanOrEqual)
  | .coalesce => some (I.binary .coalesce)
  | .power | .arrayIndex | .leftShift | .rightShift => none

/-- The value of an expression in a lambda body. -/
def evaluate? (bound : Bound V) : Expr → Option V
  | ⟨_, _, .parameter name⟩ =>
      match bound with
      | some (param, .scalar value) => if param = name then some value else none
      | _ => none
  | ⟨_, _, .member m (some ⟨_, _, .parameter name⟩)⟩ =>
      match bound with
      | some (param, element) => if param = name then element.field? m.name else none
      | none => none
  | ⟨_, _, .member m (some ⟨_, _, .constant (.closure env)⟩)⟩ => (env.get? m.name).map I.literal
  | ⟨_, _, .constant value⟩ => some (I.literal value)
  | ⟨_, ty, .binary op _ left right _⟩ => do
      let operation ← operation? I op (ty == .bool)
      return operation (← evaluate? bound left) (← evaluate? bound right)
  | ⟨_, _, .unary op _ operand⟩ =>
      match op with
      | .not => do return I.not (← evaluate? bound operand)
      | .negate => do return I.negate (← evaluate? bound operand)
      | .convert | .quote | .typeAs | .unaryPlus => evaluate? bound operand
      | .arrayLength => none
  | ⟨_, _, .conditional test ifTrue ifFalse⟩ => do
      let c ← evaluate? bound test
      let a ← evaluate? bound ifTrue
      let b ← evaluate? bound ifFalse
      return if I.truth c then a else b
  | _ => none
termination_by structural e => e

/-- The element that a selector makes of an element: a record for a composite body, a scalar for any
other.  A body that passes arguments to a constructor besides naming members makes no element. -/
def project? (param : String) (element : Element V) (body : Expr) : Option (Element V) :=
  let value? := evaluate? I (some (param, element))
  match body.node with
  | .parameter name => if param = name then some element else none
  | .construct construction => do
      let values ← construction.args.mapM value?
      return .record ((construction.members.map (·.name)).zip values)
  | .memberInit construction bindings =>
      if construction.args.isEmpty then do
        let fields ← bindings.mapM assigned?
        let values ← (fields.map (·.2)).mapM value?
        return .record ((fields.map (·.1)).zip values)
      else
        none
  | _ => do return .scalar (← value? body)

/-- The values that a key selector sorts an element by, the most significant one first. -/
def keyOf? (param : String) (element : Element V) (body : Expr) : Option (List V) :=
  let value? := evaluate? I (some (param, element))
  match body.node with
  | .construct construction => construction.args.mapM value?
  | .memberInit construction bindings =>
      if construction.args.isEmpty then do
        let fields ← bindings.mapM assigned?
        (fields.map (·.2)).mapM value?
      else
        none
  | _ => do return [← value? body]

end Bodies

/-! ## Operators -/

/-- Elements in order of arrival, each with the sort keys in force for it. -/
structure Sequence (V : Type) where
  arrived : List (Element V × List (V × Bool))

namespace Sequence

variable (I : Interpretation V)

/-- Elements that arrive in order. -/
def ofElements (elements : List (Element V)) : Sequence V :=
  ⟨elements.map (·, [])⟩

/-- The elements in order. -/
def elements (s : Sequence V) : List (Element V) :=
  (s.arrived.mergeSort fun a b => I.leKeys a.2 b.2).map (·.1)

/-- Keep the elements that satisfy a test. -/
def filter? (s : Sequence V) (test : Element V → Option Bool) : Option (Sequence V) := do
  return ⟨← keep? (fun a => test a.1) s.arrived⟩

/-- Replace each element. -/
def map? (s : Sequence V) (f : Element V → Option (Element V)) : Option (Sequence V) := do
  return ⟨← s.arrived.mapM fun a => do return (← f a.1, a.2)⟩

/-- Sort by a key, which replaces the keys in force or, when it `refines` them, comes after them. -/
def sort? (s : Sequence V) (refines descending : Bool) (key : Element V → Option (List V)) :
    Option (Sequence V) := do
  return ⟨← s.arrived.mapM fun a => do
    let values ← key a.1
    return (a.1, (if refines then a.2 else []) ++ values.map (·, descending))⟩

/-- Keep the first elements. -/
def take (s : Sequence V) (count : Nat) : Sequence V :=
  ofElements ((s.elements I).take count)

/-- Drop the first elements. -/
def skip (s : Sequence V) (count : Nat) : Sequence V :=
  ofElements ((s.elements I).drop count)

/-- Sort by what a function of the element gives. -/
def sortBy? (s : Sequence V) (refines descending : Bool) (argument : Expr) :
    Option (Sequence V) := do
  let (param, body) ← function? argument
  s.sort? refines descending fun element => keyOf? I param element body

/-- Apply an operator with its argument. -/
def operate? (s : Sequence V) (operator : Operator) (argument : Expr) : Option (Sequence V) :=
  match operator with
  | .filter => do
      let (param, body) ← function? argument
      s.filter? fun element => do return I.truth (← evaluate? I (some (param, element)) body)
  | .select => do
      let (param, body) ← function? argument
      s.map? fun element => project? I param element body
  | .orderBy => s.sortBy? I false false argument
  | .orderByDescending => s.sortBy? I false true argument
  | .thenBy => s.sortBy? I true false argument
  | .thenByDescending => s.sortBy? I true true argument
  | .take => do return s.take I (I.count (← evaluate? I none argument))
  | .skip => do return s.skip I (I.count (← evaluate? I none argument))

/-- Elements that arrive in order are in order. -/
theorem elements_ofElements {I : Interpretation V} (elements : List (Element V)) :
    (ofElements elements).elements I = elements := by
  rw [Sequence.elements, ofElements, List.mergeSort_of_pairwise, List.map_map]
  · exact List.map_id _
  · rw [List.pairwise_map]
    exact List.pairwise_of_forall fun _ _ => rfl

end Sequence

/-! ## Chains -/

/-- The rows of a table as elements, with a field for each mapped member. -/
def tableElements (source : TableSource) (rows : List (String → V)) : List (Element V) :=
  rows.map fun row => .record (source.model.fields.map fun f => (f.name, row f.column))

/-- The sequence that a chain yields. -/
def sequence? (I : Interpretation V) (schema : Schema) (db : Database V) : Expr → Option (Sequence V)
  | ⟨_, _, .call m none [source, argument]⟩ => do
      let operator ← operator? m
      let s ← sequence? I schema db source
      s.operate? I operator argument
  | ⟨_, _, .constant (.table table)⟩ => do
      let source ← schema.tableSource? table.model
      return .ofElements (tableElements source (db source))
  | _ => none
termination_by structural e => e

/-- The elements that a chain yields, in order. -/
def elements? (I : Interpretation V) (schema : Schema) (db : Database V) (t : Expr) :
    Option (List (Element V)) := do
  return (← sequence? I schema db t).elements I

/-- A selector body that names each argument once, or each member that it initializes. -/
def PlainSelector (body : Expr) : Prop :=
  match body.node with
  | .construct construction =>
      construction.members.length = construction.args.length ∧
        (construction.members.map (·.name)).Nodup
  | .memberInit construction bindings =>
      construction.args = [] ∧
        ∀ fields, bindings.mapM assigned? = some fields → (fields.map (·.1)).Nodup
  | _ => True

/-- Names in a chain are distinct: the fields of its table, and the members of each projection, which
names every argument that it constructs from and passes none besides the members that it initializes. -/
def DistinctNames : Expr → Prop
  | ⟨_, _, .call m none [source, argument]⟩ =>
      DistinctNames source ∧
        (operator? m = some .select →
          ∀ param body, function? argument = some (param, body) → PlainSelector body)
  | ⟨_, _, .constant (.table table)⟩ => (table.model.fields.map (·.name)).Nodup
  | _ => True
termination_by structural e => e

end Semantics
end QueryPlan
