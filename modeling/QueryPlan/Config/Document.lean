import QueryPlan.Config
import QueryPlan.Toml.Document

/-!
# Document — configurations as documents

A configuration has two sections, each a table of named settings or an array of its settings in
order.  Whatever is missing has its usual value, and a table must not hold anything else.
-/

namespace QueryPlan
namespace Config

/-- The largest depth that a document can give. -/
def depthLimit : Nat :=
  Nat.pow 2 64 - 1

/-- The settings of a section in the order of their names. -/
def settings? (names : List String) : Toml.Value → Option (List (Option Toml.Value))
  | .table _ entries =>
      if entries.all (names.contains ·.1) then some (names.map (entries.lookup ·)) else none
  | v => v.toList?.map fun items => (List.range names.length).map (items[·]?)

def setting? {α : Type} (usual : α) (read : Toml.Value → Option α) :
    Option Toml.Value → Option α
  | none => some usual
  | some v => read v

def switch? : Toml.Value → Option Bool
  | .bool v => some v
  | _ => none

def depth? : Toml.Value → Option Nat
  | .integer numeral => do
      let n ← numeral.toInt?
      if 0 ≤ n ∧ n ≤ depthLimit then some n.toNat else none
  | _ => none

def cacheSection? (v : Toml.Value) : Option CacheConfig := do
  match ← settings? ["enabled", "depth"] v with
  | [enabled, depth] =>
      let usual := CacheConfig.usual
      return ⟨← setting? usual.enabled switch? enabled, ← setting? usual.depth depth? depth⟩
  | _ => none

def sessionSection? (v : Toml.Value) : Option SessionConfig := do
  match ← settings? ["debug"] v with
  | [debug] => return ⟨← setting? SessionConfig.usual.debug switch? debug⟩
  | _ => none

def ofDocument? (entries : Toml.Entries) : Option Config := do
  match ← settings? ["plan_cache", "session"] (.table .declared entries) with
  | [cache, session] =>
      return ⟨← setting? .usual cacheSection? cache, ← setting? .usual sessionSection? session⟩
  | _ => none

def parse (s : String) : Except ConfigError Config := do
  let some entries := Toml.read? s | .error (.malformed .form)
  let some config := ofDocument? entries | .error (.malformed .content)
  config.validate
  return config

/-- The settings in a file, given what came of reading it. -/
def ofFile (path : String) (contents : Except String String) : Except ConfigError Config :=
  match contents with
  | .ok s => parse s
  | .error reason => .error (.unreadable path reason)

end Config
end QueryPlan
