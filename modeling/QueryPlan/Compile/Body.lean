import QueryPlan.Sql.Context

/-!
# Body — from lambda bodies to SQL terms

`convert` turns an expression into a term.  It is given the path of the expression in the template,
so that every literal or captured variable that must be bound gets a slot with its exact position;
slots are appended in the order in which positions are visited, left to right.

Three rules keep plans reusable between alike templates:

* only literals of inlined types enter the query text;
* a comparison with an inlined null is a null test;
* a comparison with a bound parameter treats two nulls as equal, because the parameter may be null
  in the next template.
-/

namespace QueryPlan
namespace Compile

open Sql (Slot SlotSource Shape Term)

/-- What an expression is converted in: the shape of the current element, the name of the lambda
parameter that stands for it, and the part of the chain that messages mention. -/
structure Frame where
  shape : Shape
  param : Option String
  place : Place

/-- A conversion registers slots as it goes and stops at the first error. -/
abbrev Conversion := StateT (List Slot) (Except CompileError)

def bindSlot (path : Path) (source : SlotSource) : Conversion Term :=
  modifyGet fun slots => (.param slots.length, slots ++ [⟨path, source⟩])

/-- Whether an expression is a null literal that becomes part of the query text. -/
def isInlineNull (e : Expr) : Bool :=
  e.ty.isInlined && (e.asConstant?.any Value.isNull)

/-- The SQL operator for a template operator; `logical` tells truth values from bit patterns. -/
def sqlOp? (op : BinaryOp) (logical : Bool) : Option Sql.BinaryOp :=
  match op with
  | .add => some .add
  | .subtract => some .subtract
  | .multiply => some .multiply
  | .divide => some .divide
  | .modulo => some .modulo
  | .andAlso => some .and
  | .orElse => some .or
  | .and => some (if logical then .and else .bitAnd)
  | .or => some (if logical then .or else .bitOr)
  | .exclusiveOr => some .bitXor
  | .equal => some .equal
  | .notEqual => some .notEqual
  | .lessThan => some .lessThan
  | .lessThanOrEqual => some .lessThanOrEqual
  | .greaterThan => some .greaterThan
  | .greaterThanOrEqual => some .greaterThanOrEqual
  | .coalesce => some .coalesce
  | .power | .arrayIndex | .leftShift | .rightShift => none

/-- Combine two operands; equality with a bound operand treats two nulls as equal. -/
def combine (op : Sql.BinaryOp) (left right : Term) : Term :=
  if left.isParam || right.isParam then
    match op with
    | .equal => .binary .notDistinctFrom left right
    | .notEqual => .binary .distinctFrom left right
    | other => .binary other left right
  else
    .binary op left right

/-- The null test that a comparison stands for: `=` tests for null and `<>` for its absence. -/
def nullTest? (op : BinaryOp) : Option Bool :=
  match op with
  | .equal => some false
  | .notEqual => some true
  | _ => none

/-- A bare parameter stands for the whole element, which is a term only for scalars. -/
def convertElement (frame : Frame) (name : String) : Conversion Term :=
  if frame.param = some name then
    match frame.shape with
    | .scalar term => pure term
    | .members _ => throw (.unsupportedExpression .parameter frame.place)
  else
    throw (.unboundParameter name)

/-- A member is read from the current element or from a capture environment. -/
def convertMember (frame : Frame) (path : Path) (m : Member) (object : Option Expr) :
    Conversion Term :=
  match object with
  | some ⟨_, _, .parameter name⟩ =>
      if frame.param = some name then
        match frame.shape.member? m.name with
        | some term => pure term
        | none => throw (.unknownMember m.name)
      else
        throw (.unboundParameter name)
  | some ⟨_, _, .constant (.closure _)⟩ => bindSlot (path ++ [0]) (.captured m.name)
  | _ => throw (.unsupportedExpression .member frame.place)

def convertConstant (frame : Frame) (path : Path) (ty : Ty) (value : Value) : Conversion Term :=
  if ty.isInlined then
    pure (.literal value)
  else if value.isScalar then
    bindSlot path .literal
  else
    throw (.unsupportedExpression .constant frame.place)

def convert (frame : Frame) (path : Path) : Expr → Conversion Term
  | ⟨_, _, .parameter name⟩ => convertElement frame name
  | ⟨_, _, .member m object⟩ => convertMember frame path m object
  | ⟨_, ty, .constant value⟩ => convertConstant frame path ty value
  | ⟨_, ty, .binary op _ left right _⟩ =>
      match nullTest? op, isInlineNull right, isInlineNull left with
      | some negated, true, _ => do
          return .isNull (← convert frame (path ++ [0]) left) negated
      | some negated, false, true => do
          return .isNull (← convert frame (path ++ [1]) right) negated
      | _, _, _ =>
          match sqlOp? op (ty == .bool) with
          | some sqlOp => do
              let l ← convert frame (path ++ [0]) left
              let r ← convert frame (path ++ [1]) right
              return combine sqlOp l r
          | none => throw (.unsupportedExpression (.binary op) frame.place)
  | ⟨_, _, .unary op _ operand⟩ =>
      match op with
      | .not => do return .not (← convert frame (path ++ [0]) operand)
      | .negate => do return .negate (← convert frame (path ++ [0]) operand)
      | .convert | .quote | .typeAs | .unaryPlus => convert frame (path ++ [0]) operand
      | .arrayLength => throw (.unsupportedExpression (.unary .arrayLength) frame.place)
  | ⟨_, _, .conditional test ifTrue ifFalse⟩ => do
      let c ← convert frame (path ++ [0]) test
      let a ← convert frame (path ++ [1]) ifTrue
      let b ← convert frame (path ++ [2]) ifFalse
      return .caseWhen c a b
  | ⟨_, _, node⟩ => throw (.unsupportedExpression node.kind frame.place)
termination_by structural e => e

/-- A term used as a value: a predicate of type `bool` becomes a number, so that it can be sorted
and selected. -/
def asValue (ty : Ty) (term : Term) : Term :=
  if ty == .bool && term.isPredicate then .ofPredicate term else term

def convertValue (frame : Frame) (path : Path) (e : Expr) : Conversion Term := do
  return asValue e.ty (← convert frame path e)

/-- Convert the values of consecutive children, the first of which has the given index. -/
def convertValues (frame : Frame) (path : Path) : Nat → List Expr → Conversion (List Term)
  | _, [] => pure []
  | index, e :: rest => do
      let term ← convertValue frame (path ++ [index]) e
      let terms ← convertValues frame path (index + 1) rest
      return term :: terms

/-- Convert the assigned values of bindings, the first of which is the child with the given index;
any other binding has no SQL form. -/
def convertAssigned (frame : Frame) (path : Path) :
    Nat → List (Binding Expr) → Conversion (List (String × Term))
  | _, [] => pure []
  | index, .assign m value :: rest => do
      let term ← convertValue frame (path ++ [index]) value
      let terms ← convertAssigned frame path (index + 1) rest
      return (m.name, term) :: terms
  | _, _ :: _ => throw (.unsupportedExpression .memberInit frame.place)

/-- The path of a lambda's body: one step through each quote and one into the lambda. -/
def bodyPath (lambda : Expr) (path : Path) : Path :=
  path ++ List.replicate (lambda.quoteDepth + 1) 0

end Compile
end QueryPlan
