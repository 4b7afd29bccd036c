import QueryPlan.Error
import QueryPlan.Json.Record

/-!
# Json — public errors as JSON

A public error is a record of kind, origin and message.  The kind and the origin are variants named
after their constructors; a query error carries its fault as payload.
-/

namespace QueryPlan

namespace QueryFault

def all : List QueryFault :=
  [invalid, unsupported, unmapped]

def name : QueryFault → String
  | invalid => "Invalid"
  | unsupported => "Unsupported"
  | unmapped => "Unmapped"

def ofName? (name : String) : Option QueryFault :=
  all.find? (·.name == name)

end QueryFault

namespace PublicKind

def queryName : String :=
  "Query"

/-- The kinds without payload. -/
def plain : List PublicKind :=
  [config, connection, mapping, internal]

def name : PublicKind → String
  | query _ => queryName
  | config => "Config"
  | connection => "Connection"
  | mapping => "Mapping"
  | internal => "Internal"

/-- The kind with its payload in brackets. -/
def text : PublicKind → String
  | query fault => queryName ++ "(" ++ fault.name ++ ")"
  | kind => kind.name

def json : PublicKind → String
  | query fault => "\x7b" ++ Json.quote queryName ++ ":" ++ Json.quote fault.name ++ "\x7d"
  | kind => Json.quote kind.name

def ofJson? (v : Json.Value) : Option PublicKind :=
  match v.variant? with
  | some (name, payload) =>
      if name = queryName then
        return query (← QueryFault.ofName? (← (← payload).plainVariant?))
      else do
        let name ← v.plainVariant?
        plain.find? (·.name == name)
  | none => none

end PublicKind

namespace PublicOrigin

def all : List PublicOrigin :=
  [config, connection, executor, mapping, parse, plan]

def name : PublicOrigin → String
  | config => "Config"
  | connection => "Connection"
  | executor => "Executor"
  | mapping => "Mapping"
  | parse => "Parse"
  | plan => "Plan"

def ofJson? (v : Json.Value) : Option PublicOrigin := do
  let name ← v.plainVariant?
  all.find? (·.name == name)

end PublicOrigin

namespace PublicError

def fieldNames : List String :=
  ["kind", "origin", "message"]

def json (e : PublicError) : String :=
  "\x7b\"kind\":" ++ e.kind.json ++ ",\"origin\":" ++ Json.quote e.origin.name
    ++ ",\"message\":" ++ Json.quote e.message ++ "\x7d"

def ofJson? (v : Json.Value) : Option PublicError := do
  match ← v.fullRecord? fieldNames with
  | [kind, origin, message] =>
      return ⟨← PublicKind.ofJson? kind, ← PublicOrigin.ofJson? origin, ← message.toText?⟩
  | _ => none

def read? (s : String) : Option PublicError := do
  ofJson? (← Json.read? s)

end PublicError

end QueryPlan
