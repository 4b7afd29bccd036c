/-!
# Ty — static types and the names declared on them

Every template node has a static type.  Types are compared structurally; `Ty.name` is the path that
messages print.  Members, methods and constructors are named relative to a declaring type.
-/

namespace QueryPlan

inductive Ty where
  | int32
  | int64
  | float64
  | bool
  | text
  | unit
  | option (item : Ty)
  | list (item : Ty)
  /-- A type declared by the application, known by its path. -/
  | named (path : String)
  /-- The type that declares the chain operators. -/
  | operators
  /-- The type of capture environments. -/
  | environment
  /-- A chain producing elements of the given type. -/
  | queryable (element : Ty)
  /-- The table an entity type is read from. -/
  | table (element : Ty)
  deriving DecidableEq

namespace Ty

def name : Ty → String
  | int32 => "i32"
  | int64 => "i64"
  | float64 => "f64"
  | bool => "bool"
  | text => "alloc::string::String"
  | unit => "()"
  | option item => "core::option::Option<" ++ item.name ++ ">"
  | list item => "alloc::vec::Vec<" ++ item.name ++ ">"
  | named path => path
  | operators => "sqlchain_core::chain::QueryOps"
  | environment => "sqlchain_core::value::ClosureEnv"
  | queryable element => "sqlchain_core::chain::Queryable<" ++ element.name ++ ">"
  | table element => "sqlchain_core::chain::Table<" ++ element.name ++ ">"

/-- Literals of an inlined type become part of the query text and are compared by value when
templates are matched; literals of every other type are bound as parameters. -/
def isInlined : Ty → Bool
  | int32 | text => true
  | _ => false

end Ty

structure Member where
  declaring : Ty
  name : String
  ty : Ty
  deriving DecidableEq

namespace Member

/-- Members are identified by their declaring type and name; the type is carried along. -/
def same (a b : Member) : Bool :=
  a.declaring == b.declaring && a.name == b.name

end Member

structure Method where
  declaring : Ty
  name : String
  deriving DecidableEq

/-- A constructor of a type, told apart by the number of its arguments. -/
structure Constructor where
  ty : Ty
  arity : Nat
  deriving DecidableEq

structure Param where
  name : String
  ty : Ty
  deriving DecidableEq

end QueryPlan
