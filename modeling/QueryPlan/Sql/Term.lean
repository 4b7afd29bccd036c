import QueryPlan.Value

/-!
# Term — scalar SQL expressions

Terms are dialect-neutral trees.  `Term.agrees` compares two of them the way `Value.agrees` compares
the literals inside; `Term.text` is a generic form for diagnostics.
-/

namespace QueryPlan
namespace Sql

inductive BinaryOp where
  | add
  | subtract
  | multiply
  | divide
  | modulo
  | and
  | or
  | bitAnd
  | bitOr
  | bitXor
  | equal
  | notEqual
  | lessThan
  | lessThanOrEqual
  | greaterThan
  | greaterThanOrEqual
  /-- Equality that treats two nulls as equal. -/
  | notDistinctFrom
  /-- Inequality that treats two nulls as equal. -/
  | distinctFrom
  | coalesce
  deriving DecidableEq

namespace BinaryOp

def all : List BinaryOp :=
  [add, subtract, multiply, divide, modulo, and, or, bitAnd, bitOr, bitXor, equal, notEqual,
    lessThan, lessThanOrEqual, greaterThan, greaterThanOrEqual, notDistinctFrom, distinctFrom,
    coalesce]

def symbol : BinaryOp → String
  | add => "+"
  | subtract => "-"
  | multiply => "*"
  | divide => "/"
  | modulo => "%"
  | and => "AND"
  | or => "OR"
  | bitAnd => "&"
  | bitOr => "|"
  | bitXor => "^"
  | equal => "="
  | notEqual => "<>"
  | lessThan => "<"
  | lessThanOrEqual => "<="
  | greaterThan => ">"
  | greaterThanOrEqual => ">="
  | notDistinctFrom => "IS NOT DISTINCT FROM"
  | distinctFrom => "IS DISTINCT FROM"
  | coalesce => "COALESCE"

def isPredicate : BinaryOp → Bool
  | and | or | equal | notEqual | lessThan | lessThanOrEqual | greaterThan | greaterThanOrEqual
  | notDistinctFrom | distinctFrom => true
  | add | subtract | multiply | divide | modulo | bitAnd | bitOr | bitXor | coalesce => false

end BinaryOp

inductive Term where
  /-- A column of a scope's source: a table column in the innermost scope, an output column of the
  nested scope elsewhere. -/
  | column (scope : Nat) (name : String)
  /-- A literal that is part of the query text. -/
  | literal (value : Value)
  /-- A bound parameter, by slot index. -/
  | param (index : Nat)
  | binary (op : BinaryOp) (left right : Term)
  | not (operand : Term)
  | negate (operand : Term)
  | isNull (operand : Term) (negated : Bool)
  | caseWhen (test ifTrue ifFalse : Term)
  deriving DecidableEq

namespace Term

/-- A predicate as a number: one when it holds and zero otherwise. -/
def ofPredicate (predicate : Term) : Term :=
  caseWhen predicate (literal (.int 1)) (literal (.int 0))

/-- Whether the term is a predicate at its top. -/
def isPredicate : Term → Bool
  | binary op _ _ => op.isPredicate
  | not _ | isNull _ _ => true
  | _ => false

def isParam : Term → Bool
  | param _ => true
  | _ => false

/-- Terms of the same form whose literals agree. -/
def agrees : Term → Term → Bool
  | column s n, column s' n' => s == s' && n == n'
  | literal v, literal v' => v.agrees v'
  | param i, param i' => i == i'
  | binary op l r, binary op' l' r' => op == op' && agrees l l' && agrees r r'
  | not t, not t' => agrees t t'
  | negate t, negate t' => agrees t t'
  | isNull t n, isNull t' n' => agrees t t' && n == n'
  | caseWhen c a b, caseWhen c' a' b' => agrees c c' && agrees a a' && agrees b b'
  | _, _ => false

def scopeName (scope : Nat) : String :=
  "t" ++ toString scope

def text : Term → String
  | column scope name => scopeName scope ++ "." ++ name
  | literal value => value.sql
  | param index => "@p" ++ toString index
  | binary .coalesce left right => "COALESCE(" ++ left.text ++ ", " ++ right.text ++ ")"
  | binary op left right => "(" ++ left.text ++ " " ++ op.symbol ++ " " ++ right.text ++ ")"
  | not operand => "NOT " ++ operand.text
  | negate operand => "-" ++ operand.text
  | isNull operand false => operand.text ++ " IS NULL"
  | isNull operand true => operand.text ++ " IS NOT NULL"
  | caseWhen test ifTrue ifFalse =>
      "CASE WHEN " ++ test.text ++ " THEN " ++ ifTrue.text ++ " ELSE " ++ ifFalse.text ++ " END"

end Term

end Sql
end QueryPlan
