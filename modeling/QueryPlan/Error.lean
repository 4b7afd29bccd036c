import QueryPlan.Expr.Path

/-!
# Error — what can go wrong, and how it is reported

There are three families of causes: a template that does not compile (`CompileError`), a plan that
cannot be run (`ExecutionError`), and a configuration that cannot be used (`ConfigError`).  Each has
one wording.  `PublicError` is the form shown to callers: a kind, an origin and the same wording.
-/

namespace QueryPlan

/-- The part of a chain that an expression occurs in. -/
inductive Place where
  | filter
  | select
  | orderBy
  | take
  | skip
  deriving DecidableEq

namespace Place

def text : Place → String
  | filter => "where"
  | select => "select"
  | orderBy => "order by"
  | take => "take"
  | skip => "skip"

end Place

/-! ## Templates that do not compile -/

inductive CompileError where
  | explicitConstruction (ty : Ty) (operator : String)
  /-- No rule of the registry accepts a link of the chain. -/
  | unacceptedLink (link : String)
  /-- An expression has no SQL form in the place where it occurs. -/
  | unsupportedExpression (kind : Kind) (place : Place)
  | unknownMember (member : String)
  | unboundParameter (name : String)
  /-- A table that the schema does not resolve. -/
  | unmappedSource (path : String)
  /-- A link that is not part of the template being compiled. -/
  | detachedLink (ty : Ty)
  deriving DecidableEq

namespace CompileError

def message : CompileError → String
  | explicitConstruction ty operator =>
      "explicit construction of entity type '" ++ ty.name ++ "' in " ++ operator
        ++ " is not allowed"
  | unacceptedLink link => "no parser accepts " ++ link
  | unsupportedExpression kind place =>
      "expression kind " ++ kind.text ++ " is not supported in " ++ place.text
  | unknownMember member => "member '" ++ member ++ "' is not mapped on the current element"
  | unboundParameter name => "parameter '" ++ name ++ "' is not bound by the enclosing lambda"
  | unmappedSource path => "table source for '" ++ path ++ "' cannot be resolved"
  | detachedLink ty =>
      "chain link of type " ++ ty.name ++ " is not part of the template being parsed"

end CompileError

/-! ## Plans that cannot be run -/

inductive ErrorClass where
  | notFound
  | internal
  | unsupported
  | invariantViolation
  deriving DecidableEq

namespace ErrorClass

def text : ErrorClass → String
  | notFound => "not_found"
  | internal => "internal"
  | unsupported => "unsupported"
  | invariantViolation => "invariant_violation"

end ErrorClass

inductive Component where
  | plan
  | executor
  | connection
  | mapping
  deriving DecidableEq

namespace Component

def text : Component → String
  | plan => "plan"
  | executor => "executor"
  | connection => "connection"
  | mapping => "mapping"

end Component

/-- Why a plan cannot be run or a row cannot be read. -/
inductive ExecutionError where
  /-- A parameter's path leads nowhere in the template. -/
  | unresolvedPath (path : Path)
  | notLiteral (path : Path) (found : Kind)
  | missingCapture (name : String) (path : Path)
  /-- A captured variable is looked up in something other than an environment. -/
  | notClosure (name : String) (path : Path) (found : String)
  | unbindable (found : String) (path : Path)
  | elementMismatch (produced requested : Ty)
  | templateMismatch
  | connection (reason : String)
  | rowWidth (values columns : Nat)
  | missingColumn (column : String)
  | mappingMismatch (column expected : String)
  deriving DecidableEq

namespace ExecutionError

def errorClass : ExecutionError → ErrorClass
  | unresolvedPath _ | notLiteral .. | missingCapture .. | notClosure .. | elementMismatch ..
  | templateMismatch => .invariantViolation
  | unbindable .. | mappingMismatch .. => .unsupported
  | connection _ | rowWidth .. => .internal
  | missingColumn _ => .notFound

def component : ExecutionError → Component
  | unresolvedPath _ | notLiteral .. | missingCapture .. | notClosure .. | unbindable ..
  | elementMismatch .. => .executor
  | templateMismatch => .plan
  | connection _ | rowWidth .. => .connection
  | missingColumn _ | mappingMismatch .. => .mapping

def message : ExecutionError → String
  | unresolvedPath path => "parameter path " ++ path.text ++ " does not resolve in template"
  | notLiteral path found =>
      "parameter path " ++ path.text ++ " resolves to " ++ found.text ++ ", expected a literal"
  | missingCapture name path => "captured variable '" ++ name ++ "' missing at " ++ path.text
  | notClosure name path found =>
      "captured variable '" ++ name ++ "' expected a closure at " ++ path.text ++ ", found "
        ++ found
  | unbindable found path =>
      found ++ " value at " ++ path.text ++ " cannot be bound as a parameter"
  | elementMismatch produced requested =>
      "plan produces " ++ produced.name ++ ", requested " ++ requested.name
  | templateMismatch => "template does not match the plan it is executed with"
  | connection reason => reason
  | rowWidth values columns =>
      "row carries " ++ toString values ++ " values for " ++ toString columns ++ " columns"
  | missingColumn column => "row has no column '" ++ column ++ "'"
  | mappingMismatch column expected =>
      "column '" ++ column ++ "' cannot be mapped to " ++ expected

def classified (e : ExecutionError) : String :=
  e.component.text ++ ":" ++ e.errorClass.text ++ ": " ++ e.message

end ExecutionError

/-- A compiled query fails either while compiling or while running. -/
inductive QueryError where
  | compile (cause : CompileError)
  | execution (cause : ExecutionError)
  deriving DecidableEq

/-! ## Configurations that cannot be used -/

inductive Malformation where
  /-- The text is not a document. -/
  | form
  /-- The document holds something other than settings. -/
  | content
  deriving DecidableEq

namespace Malformation

def text : Malformation → String
  | form => "not a document"
  | content => "not a set of settings"

end Malformation

inductive ConfigError where
  /-- The file cannot be read; the operating system gives the reason. -/
  | unreadable (path reason : String)
  | malformed (cause : Malformation)
  /-- The plan cache would hold nothing. -/
  | zeroDepth
  deriving DecidableEq

namespace ConfigError

def message : ConfigError → String
  | unreadable path reason => "failed to read config file '" ++ path ++ "': " ++ reason
  | malformed cause => "failed to parse config: " ++ cause.text
  | zeroDepth => "plan_cache.depth must be at least 1"

end ConfigError

/-! ## Errors as callers see them -/

inductive QueryFault where
  | invalid
  | unsupported
  | unmapped
  deriving DecidableEq

/-- The stable taxonomy of errors. -/
inductive PublicKind where
  | query (fault : QueryFault)
  | config
  | connection
  | mapping
  | internal
  deriving DecidableEq

inductive PublicOrigin where
  | config
  | connection
  | executor
  | mapping
  | parse
  | plan
  deriving DecidableEq

/-- An error as callers see it. -/
structure PublicError where
  kind : PublicKind
  origin : PublicOrigin
  message : String
  deriving DecidableEq

namespace CompileError

/-- Whether the chain is malformed, has no SQL form, or has no table. -/
def fault : CompileError → QueryFault
  | explicitConstruction .. | unacceptedLink _ | unsupportedExpression .. => .unsupported
  | unknownMember _ | unboundParameter _ | detachedLink _ => .invalid
  | unmappedSource _ => .unmapped

def toPublic (e : CompileError) : PublicError :=
  ⟨.query e.fault, .parse, e.message⟩

end CompileError

namespace Component

def toPublic : Component → PublicOrigin
  | plan => .plan
  | executor => .executor
  | connection => .connection
  | mapping => .mapping

end Component

namespace ExecutionError

/-- Mapping and connection failures are the caller's to remedy; the rest is internal. -/
def publicKind (e : ExecutionError) : PublicKind :=
  match e.errorClass, e.component with
  | .notFound, .mapping | .unsupported, .mapping => .mapping
  | .internal, .connection => .connection
  | _, _ => .internal

def toPublic (e : ExecutionError) : PublicError :=
  ⟨e.publicKind, e.component.toPublic, e.message⟩

end ExecutionError

namespace ConfigError

def toPublic (e : ConfigError) : PublicError :=
  ⟨.config, .config, e.message⟩

end ConfigError

namespace QueryError

def toPublic : QueryError → PublicError
  | compile cause => cause.toPublic
  | execution cause => cause.toPublic

end QueryError

end QueryPlan
