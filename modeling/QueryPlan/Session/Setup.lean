import QueryPlan.Config.Document
import QueryPlan.Session.Calls

/-!
# Setup — sessions and caches before any call

A setup lists caches and sessions.  There is always a global cache, the first one of the world, and a
session uses it unless it is given another one.  A session that is described by a document has a cache
of its own, again unless it is given another one; that cache is listed after those of the setup.

Setting up fails at the first cache or document that cannot be used, caches before sessions.
-/

namespace QueryPlan

inductive CacheSetup where
  | global
  | fresh (config : CacheConfig)

/-- A session of a setup.  Settings that are not given are those of the document, or the usual ones. -/
structure SessionSetup where
  schema : Schema
  /-- The position of the session's cache among the listed caches. -/
  cache : Option Nat
  document : Option String
  rules : List Compile.Rule
  debug : Option Bool
  watched : Bool

/-- Caches and sessions made so far. -/
structure Setup where
  /-- Every cache, the global one first. -/
  caches : List PlanCache
  /-- The listed caches, as indices of caches. -/
  listed : List Nat
  sessions : List Session

namespace Setup

/-- The global cache alone. -/
def empty : Setup :=
  ⟨[.usual], [], []⟩

def addFresh (setup : Setup) (cache : PlanCache) : Setup :=
  { setup with
    caches := setup.caches ++ [cache]
    listed := setup.listed ++ [setup.caches.length] }

def addCache (setup : Setup) : CacheSetup → Except ConfigError Setup
  | .global => .ok { setup with listed := setup.listed ++ [0] }
  | .fresh config => do return setup.addFresh (← PlanCache.make config)

/-- The index of a listed cache, the global one if there is none at a position. -/
def cacheAt (setup : Setup) (position : Option Nat) : Nat :=
  (position.bind (setup.listed[·]?)).getD 0

def addOver (setup : Setup) (s : SessionSetup) (config : Config) (cache : Nat) : Setup :=
  let session := Session.ofConfig config s.schema cache
  let debug := s.debug.getD session.debug
  { setup with
    sessions := setup.sessions ++ [{ session with rules := s.rules, debug, watched := s.watched }] }

def addSession (setup : Setup) (s : SessionSetup) : Except ConfigError Setup :=
  match s.document with
  | none => .ok (setup.addOver s .usual (setup.cacheAt s.cache))
  | some document => do
      let config ← Config.parse document
      if s.cache.isSome then
        return setup.addOver s config (setup.cacheAt s.cache)
      else
        let own ← PlanCache.make config.cache
        return (setup.addFresh own).addOver s config setup.caches.length

/-- Add caches and then sessions, in order. -/
def make (caches : List CacheSetup) (sessions : List SessionSetup) : Except ConfigError Setup := do
  sessions.foldlM addSession (← caches.foldlM addCache empty)

def world (setup : Setup) (connections : List Connection) (counted : Bool)
    (durations : Nat → Nat) : World :=
  .start setup.caches setup.sessions connections counted durations

end Setup

end QueryPlan
