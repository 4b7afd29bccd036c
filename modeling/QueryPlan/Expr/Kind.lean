/-!
# Kind — operators of the template language and the kinds of its nodes

The set of node kinds is closed.  A kind includes the operator of the node, and its text is what
messages show.
-/

namespace QueryPlan

/-- Two-operand operators of the template language. -/
inductive BinaryOp where
  | add
  | subtract
  | multiply
  | divide
  | modulo
  | power
  | and
  | or
  | exclusiveOr
  | andAlso
  | orElse
  | equal
  | notEqual
  | lessThan
  | lessThanOrEqual
  | greaterThan
  | greaterThanOrEqual
  | coalesce
  | arrayIndex
  | leftShift
  | rightShift
  deriving DecidableEq

namespace BinaryOp

def all : List BinaryOp :=
  [add, subtract, multiply, divide, modulo, power, and, or, exclusiveOr, andAlso, orElse, equal,
    notEqual, lessThan, lessThanOrEqual, greaterThan, greaterThanOrEqual, coalesce, arrayIndex,
    leftShift, rightShift]

def text : BinaryOp → String
  | add => "Add"
  | subtract => "Subtract"
  | multiply => "Multiply"
  | divide => "Divide"
  | modulo => "Modulo"
  | power => "Power"
  | and => "And"
  | or => "Or"
  | exclusiveOr => "ExclusiveOr"
  | andAlso => "AndAlso"
  | orElse => "OrElse"
  | equal => "Equal"
  | notEqual => "NotEqual"
  | lessThan => "LessThan"
  | lessThanOrEqual => "LessThanOrEqual"
  | greaterThan => "GreaterThan"
  | greaterThanOrEqual => "GreaterThanOrEqual"
  | coalesce => "Coalesce"
  | arrayIndex => "ArrayIndex"
  | leftShift => "LeftShift"
  | rightShift => "RightShift"

/-- Whether the result is always a truth value. -/
def isPredicate : BinaryOp → Bool
  | andAlso | orElse | equal | notEqual | lessThan | lessThanOrEqual | greaterThan
  | greaterThanOrEqual => true
  | _ => false

end BinaryOp

/-- One-operand operators of the template language. -/
inductive UnaryOp where
  | negate
  | not
  | convert
  | quote
  | typeAs
  | unaryPlus
  | arrayLength
  deriving DecidableEq

namespace UnaryOp

def all : List UnaryOp :=
  [negate, not, convert, quote, typeAs, unaryPlus, arrayLength]

def text : UnaryOp → String
  | negate => "Negate"
  | not => "Not"
  | convert => "Convert"
  | quote => "Quote"
  | typeAs => "TypeAs"
  | unaryPlus => "UnaryPlus"
  | arrayLength => "ArrayLength"

end UnaryOp

/-- Whether a new array is given by its elements or by its bounds. -/
inductive ArrayKind where
  | elements
  | bounds
  deriving DecidableEq

namespace ArrayKind

def text : ArrayKind → String
  | elements => "Init"
  | bounds => "Bounds"

end ArrayKind

inductive Kind where
  | binary (op : BinaryOp)
  | unary (op : UnaryOp)
  | call
  | invoke
  | conditional
  | constant
  | member
  | construct
  | memberInit
  | listInit
  | newArray (kind : ArrayKind)
  | lambda
  | parameter
  | typeIs
  deriving DecidableEq

namespace Kind

def text : Kind → String
  | binary op => "Binary(" ++ op.text ++ ")"
  | unary op => "Unary(" ++ op.text ++ ")"
  | call => "Call"
  | invoke => "Invoke"
  | conditional => "Conditional"
  | constant => "Constant"
  | member => "Member"
  | construct => "New"
  | memberInit => "MemberInit"
  | listInit => "ListInit"
  | newArray kind => "NewArray(" ++ kind.text ++ ")"
  | lambda => "Lambda"
  | parameter => "Parameter"
  | typeIs => "TypeIs"

end Kind

end QueryPlan
