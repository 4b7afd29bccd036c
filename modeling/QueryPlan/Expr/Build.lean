import QueryPlan.Expr.Basic
import QueryPlan.Fresh

/-!
# Build — constructors for template nodes

Each constructor makes one new node.  Result types are explicit or follow from the operands: the six
comparisons and the two logical connectives are truth values, every other operation has the type of
its left operand.
-/

namespace QueryPlan
namespace Expr

def make (ty : Ty) (node : Node Expr) : Fresh Expr := do
  return ⟨← Fresh.next, ty, node⟩

/-! ## Literals -/

def constant (value : Value) (ty : Ty) : Fresh Expr :=
  make ty (.constant value)

def int (v : Int32) : Fresh Expr :=
  constant (.int v) .int32

def long (v : Int64) : Fresh Expr :=
  constant (.long v) .int64

def float (v : Float) : Fresh Expr :=
  constant (.float v) .float64

def bool (v : Bool) : Fresh Expr :=
  constant (.bool v) .bool

def text (v : String) : Fresh Expr :=
  constant (.text v) .text

def null (ty : Ty) : Fresh Expr :=
  constant .null ty

def closure (env : Env Value) : Fresh Expr :=
  constant (.closure env) .environment

/-! ## Names -/

def param (name : String) (ty : Ty) : Fresh Expr :=
  make ty (.parameter name)

def member (object : Option Expr) (m : Member) : Fresh Expr :=
  make m.ty (.member m object)

def field (object : Expr) (m : Member) : Fresh Expr :=
  member (some object) m

/-- A captured variable, read from a new literal of its environment. -/
def captured (env : Env Value) (name : String) (ty : Ty) : Fresh Expr := do
  member (some (← closure env)) ⟨.environment, name, ty⟩

/-! ## Operations -/

def binaryWith (op : BinaryOp) (ty : Ty) (method : Option Method) (left right : Expr)
    (conversion : Option Expr) : Fresh Expr :=
  make ty (.binary op method left right conversion)

/-- A binary operation typed by its operator and left operand. -/
def binary (op : BinaryOp) (left right : Expr) : Fresh Expr :=
  binaryWith op (if op.isPredicate then .bool else left.ty) none left right none

def unaryWith (op : UnaryOp) (ty : Ty) (method : Option Method) (operand : Expr) : Fresh Expr :=
  make ty (.unary op method operand)

/-- A unary operation typed by its operand. -/
def unary (op : UnaryOp) (operand : Expr) : Fresh Expr :=
  unaryWith op operand.ty none operand

def convert (operand : Expr) (ty : Ty) : Fresh Expr :=
  unaryWith .convert ty none operand

def quote (lambda : Expr) : Fresh Expr :=
  unary .quote lambda

def call (method : Method) (ty : Ty) (object : Option Expr) (args : List Expr) : Fresh Expr :=
  make ty (.call method object args)

def invoke (ty : Ty) (target : Expr) (args : List Expr) : Fresh Expr :=
  make ty (.invoke target args)

/-- A conditional, typed by its first branch. -/
def conditional (test ifTrue ifFalse : Expr) : Fresh Expr :=
  make ifTrue.ty (.conditional test ifTrue ifFalse)

def typeIs (operand : Expr) (tested : Ty) : Fresh Expr :=
  make .bool (.typeIs operand tested)

/-! ## Construction -/

/-- A constructor call; anonymous shapes name their members. -/
def construct (ctor : Constructor) (args : List Expr) (members : List Member) : Fresh Expr :=
  make ctor.ty (.construct ⟨ctor, args, members⟩)

/-- An anonymous shape with one member per argument. -/
def anonymous (ty : Ty) (members : List (Member × Expr)) : Fresh Expr :=
  construct ⟨ty, members.length⟩ (members.map (·.2)) (members.map (·.1))

def memberInit (construction : Construction Expr) (bindings : List (Binding Expr)) : Fresh Expr :=
  make construction.ctor.ty (.memberInit construction bindings)

def listInit (construction : Construction Expr) (inits : List (ElementInit Expr)) : Fresh Expr :=
  make construction.ctor.ty (.listInit construction inits)

def newArray (kind : ArrayKind) (ty : Ty) (elements : List Expr) : Fresh Expr :=
  make ty (.newArray kind elements)

/-! ## Lambdas -/

/-- A lambda typed by its body. -/
def lambda (params : List Param) (body : Expr) : Fresh Expr :=
  make body.ty (.lambda params body)

/-- A lambda of one parameter, from a function of the parameter reference.  The function may have
effects of its own besides making nodes. -/
def lambda1 {m : Type → Type} [Monad m] [MonadLiftT Fresh m] (name : String) (ty : Ty)
    (body : Expr → m Expr) : m Expr := do
  let reference ← param name ty
  let result ← body reference
  lambda [⟨name, ty⟩] result

end Expr
end QueryPlan
