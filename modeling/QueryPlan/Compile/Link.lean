import QueryPlan.Chain
import QueryPlan.Compile.Body

/-!
# Link — extending a query by one operator of the chain

Each chain operator has a rule that extends the context built by the links below it:

* a filter is added to the current scope by conjunction;
* a projection replaces the element shape;
* a primary sort replaces the ordering of the current scope, a secondary one appends to it;
* a bound is set on the current scope.

Filters and sorts do not commute with the bounds of a page, so a scope that is already paged is
closed as a subquery first.  A second `Take`, and a `Skip` after any bound, also close the scope.
-/

namespace QueryPlan
namespace Compile

open Sql (Context OrderItem Query Scope Shape Slot Term)

/-- The rules that a registry may hold, one for each group of operators. -/
inductive Rule where
  | table
  | filter
  | select
  | sort
  | page
  deriving DecidableEq

/-- An operator call: the chain it applies to and its one further argument. -/
structure Link where
  operator : Operator
  source : Expr
  argument : Expr

namespace Link

/-- View a node as an operator call without receiver and with exactly one further argument. -/
def ofExpr? (e : Expr) : Option Link :=
  match e.node with
  | .call m none [source, argument] =>
      (Operator.ofMethod? m).map fun operator => ⟨operator, source, argument⟩
  | _ => none

/-- How messages describe a link that no rule accepts. -/
def describe (e : Expr) : String :=
  match e.node with
  | .call m _ _ => "call to " ++ m.name
  | _ => e.kind.text ++ " of type " ++ e.ty.name

end Link

/-- The parameter and body of a lambda with one parameter, seen through quotes. -/
def asSelector? (e : Expr) : Option (Param × Expr) :=
  match e.asLambda? with
  | some ([param], body) => some (param, body)
  | _ => none

/-- What one template is compiled with: rules by falling priority, the schema that names tables, and
the root that parameter paths start from. -/
structure Compiler where
  rules : List Rule
  schema : Schema
  root : Expr

namespace Rule

def all : List Rule :=
  [table, filter, select, sort, page]

def name : Rule → String
  | table => "table"
  | filter => "where"
  | select => "select"
  | sort => "order_by"
  | page => "take_skip"

def accepts (rule : Rule) (e : Expr) : Bool :=
  match rule with
  | table =>
      match e.node with
      | .constant (.table _) => true
      | _ => false
  | filter => (Link.ofExpr? e).any (·.operator == .filter)
  | select => (Link.ofExpr? e).any (·.operator == .select)
  | sort => (Link.ofExpr? e).any fun link => (SortKind.ofOperator? link.operator).isSome
  | page => (Link.ofExpr? e).any fun link => link.operator == .take || link.operator == .skip

end Rule

def converting {α : Type} (ctx : Context) (conversion : Conversion α) :
    Except CompileError (α × Context) := do
  let (result, slots) ← conversion.run ctx.slots
  return (result, { ctx with slots })

namespace Compiler

/-- The number of positions that a child can have: a position is a word of 64 bits. -/
def positions : Nat :=
  Nat.pow 2 64

/-- The position of an argument of a link, which is one further than its index because the source
comes first.  The last index has no position after it and counts on from the first. -/
def argPosition (index : Nat) : Nat :=
  (index + 1) % positions

/-- The path of an argument of a link; arguments are counted after the source.  Links nest through
their first child, so the link is found on that spine. -/
def argPath (c : Compiler) (link : Expr) (index : Nat) : Except CompileError Path :=
  match c.root.spinePath? link with
  | some path => .ok (path ++ [argPosition index])
  | none => .error (.detachedLink link.ty)

/-! ## Tables -/

def startTable (c : Compiler) (e : Expr) : Except CompileError Context :=
  match e.node with
  | .constant (.table table) =>
      match c.schema.tableSource? table.model with
      | some source => .ok (.ofSource source table.element)
      | none => .error (.unmappedSource table.model.path)
  | _ => .error (.unacceptedLink e.kind.text)

/-! ## Filters -/

def addFilter (scope : Scope) (predicate : Term) : Scope :=
  match scope.filter with
  | some existing => { scope with filter := some (.binary .and existing predicate) }
  | none => { scope with filter := some predicate }

def addPredicate (ctx : Context) (argument : Expr) (path : Path) : Except CompileError Context :=
  match asSelector? argument with
  | none => .error (.unsupportedExpression argument.kind .filter)
  | some (param, body) => do
      let frame : Frame := ⟨ctx.shape, some param.name, .filter⟩
      let (predicate, ctx) ← converting ctx (convert frame (bodyPath argument path) body)
      return { ctx with current := addFilter ctx.current predicate }

/-! ## Projections -/

def projection (frame : Frame) (path : Path) (body : Expr) : Conversion Shape :=
  match body.node with
  | .construct construction =>
      if construction.members.isEmpty then do
        return .scalar (← convertValue frame path body)
      else do
        let args := construction.args.take construction.members.length
        let terms ← convertValues frame path 0 args
        return .members ((construction.members.map (·.name)).zip terms)
  | .memberInit construction bindings => do
      return .members (← convertAssigned frame path construction.args.length bindings)
  | _ => do
      return .scalar (← convertValue frame path body)

def isElement (param : Param) (body : Expr) : Bool :=
  match body.node with
  | .parameter name => name == param.name
  | _ => false

/-- Replace the element shape by a projection of it; the element itself keeps its shape. -/
def project (c : Compiler) (ctx : Context) (e argument : Expr) (param : Param) (body : Expr) :
    Except CompileError Context := do
  if isElement param body then
    return ctx
  else
    let path ← c.argPath e 0
    let frame : Frame := ⟨ctx.shape, some param.name, .select⟩
    let (shape, ctx) ← converting ctx (projection frame (bodyPath argument path) body)
    return { ctx with shape, element := body.ty }

/-! ## Sorts -/

/-- Whether a sort key constructs an entity explicitly: with constructor arguments, without
bindings, or with anything other than plain assignments. -/
def isExplicitConstruction (body : Expr) : Bool :=
  match body.node with
  | .memberInit construction bindings =>
      !construction.args.isEmpty || bindings.isEmpty || bindings.any (!·.isAssign)
  | _ => false

def checkKey (kind : SortKind) (argument : Expr) : Except CompileError Unit :=
  match argument.asLambda? with
  | some (_, body) =>
      if isExplicitConstruction body then
        .error (.explicitConstruction body.ty kind.operator.methodName)
      else
        .ok ()
  | none => .ok ()

/-- The terms of a sort key; a composite key has one term per member. -/
def keys (frame : Frame) (path : Path) (body : Expr) : Conversion (List Term) :=
  match body.node with
  | .construct construction => convertValues frame path 0 construction.args
  | .memberInit construction bindings => do
      let assigned ← convertAssigned frame path construction.args.length bindings
      return assigned.map (·.2)
  | _ => do
      return [← convertValue frame path body]

def addOrder (scope : Scope) (kind : SortKind) (terms : List Term) : Scope :=
  let items := terms.map fun term => (⟨term, kind.descending⟩ : OrderItem)
  { scope with orderBy := (if kind.secondary then scope.orderBy else []) ++ items }

def addSort (ctx : Context) (kind : SortKind) (argument : Expr) (path : Path) :
    Except CompileError Context :=
  match asSelector? argument with
  | none => .error (.unsupportedExpression argument.kind .orderBy)
  | some (param, body) => do
      let frame : Frame := ⟨ctx.shape, some param.name, .orderBy⟩
      let (terms, ctx) ← converting ctx (keys frame (bodyPath argument path) body)
      return { ctx with current := addOrder ctx.current kind terms }

/-! ## Bounds -/

def addBound (ctx : Context) (isTake : Bool) (argument : Expr) (path : Path) :
    Except CompileError Context := do
  let frame : Frame := ⟨ctx.shape, none, if isTake then .take else .skip⟩
  let (bound, ctx) ← converting ctx (convert frame path argument)
  if isTake then
    return { ctx with current := { ctx.current with take := some bound } }
  else
    return { ctx with current := { ctx.current with skip := some bound } }

/-! ## Rules -/

def extendFilter (c : Compiler) (e : Expr) (link : Link)
    (below : Unit → Except CompileError Context) : Except CompileError Context := do
  let ctx ← below ()
  let path ← c.argPath e 0
  addPredicate (ctx.wrapIf ctx.current.isPaged) link.argument path

/-- Project what the source yields; the selector's form is checked before the source. -/
def extendSelect (c : Compiler) (e : Expr) (link : Link)
    (below : Unit → Except CompileError Context) : Except CompileError Context :=
  match asSelector? link.argument with
  | none => .error (.unsupportedExpression link.argument.unquoted.kind .select)
  | some (param, body) => do
      let ctx ← below ()
      c.project ctx e link.argument param body

/-- Sort what the source yields; the key's form is checked before the source. -/
def extendSort (c : Compiler) (e : Expr) (link : Link) (below : Unit → Except CompileError Context) :
    Except CompileError Context :=
  match SortKind.ofOperator? link.operator with
  | none => .error (.unacceptedLink e.kind.text)
  | some kind => do
      checkKey kind link.argument
      let ctx ← below ()
      let path ← c.argPath e 0
      addSort (ctx.wrapIf ctx.current.isPaged) kind link.argument path

/-- Whether a new bound needs a fresh scope: a take after a take, a skip after either. -/
def bindsAgain (isTake : Bool) (scope : Scope) : Bool :=
  if isTake then scope.take.isSome else scope.isPaged

def extendPage (c : Compiler) (e : Expr) (link : Link) (below : Unit → Except CompileError Context) :
    Except CompileError Context := do
  let isTake := link.operator == .take
  let ctx ← below ()
  let path ← c.argPath e 0
  addBound (ctx.wrapIf (bindsAgain isTake ctx.current)) isTake link.argument path

/-- The context that a rule makes of a link; `below` builds the context of the link's source, which is
not needed if the link itself is refused. -/
def extend (c : Compiler) (rule : Rule) (e : Expr) (below : Unit → Except CompileError Context) :
    Except CompileError Context :=
  match rule, Link.ofExpr? e with
  | .table, _ => c.startTable e
  | .filter, some link => c.extendFilter e link below
  | .select, some link => c.extendSelect e link below
  | .sort, some link => c.extendSort e link below
  | .page, some link => c.extendPage e link below
  | _, none => .error (.unacceptedLink e.kind.text)

end Compiler
end Compile
end QueryPlan
