import QueryPlan.Error

/-!
# Config — settings of the plan cache and of sessions
-/

namespace QueryPlan

structure CacheConfig where
  /-- A disabled cache compiles every request and keeps nothing. -/
  enabled : Bool
  /-- The number of plans kept, and the bound on one lookup. -/
  depth : Nat
  deriving DecidableEq

namespace CacheConfig

def usual : CacheConfig :=
  ⟨true, 100⟩

/-- A cache must be able to hold a plan. -/
def validate (config : CacheConfig) : Except ConfigError Unit :=
  if config.depth = 0 then .error .zeroDepth else .ok ()

end CacheConfig

structure SessionConfig where
  /-- Report the text of each query with more prominence. -/
  debug : Bool
  deriving DecidableEq

namespace SessionConfig

def usual : SessionConfig :=
  ⟨false⟩

end SessionConfig

structure Config where
  cache : CacheConfig
  session : SessionConfig
  deriving DecidableEq

namespace Config

def usual : Config :=
  ⟨.usual, .usual⟩

def validate (config : Config) : Except ConfigError Unit :=
  config.cache.validate

def boolText (v : Bool) : String :=
  if v then "true" else "false"

/-- The settings as a document, every key written out. -/
def text (config : Config) : String :=
  "[plan_cache]\nenabled = " ++ boolText config.cache.enabled
    ++ "\ndepth = " ++ toString config.cache.depth
    ++ "\n\n[session]\ndebug = " ++ boolText config.session.debug ++ "\n"

end Config

end QueryPlan
