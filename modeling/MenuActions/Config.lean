import MenuActions.Action
import MenuActions.Delay
import MenuActions.ValueAction

/-!
# Configuration

The settings of an engine: the default action type, limits, the sizes of the pools and the pauses
between values. A configuration is checked before it is used.
-/

namespace MenuActions

/-- Sizes of the pools, and how long a shutdown waits for them. -/
structure PoolConfig where
  randomWorkers : Nat
  delayWorkers : Nat
  shutdownTimeoutMs : Nat
  deriving DecidableEq, Repr

/-- The pool sizes when nothing else is configured. -/
def PoolConfig.standard : PoolConfig :=
  ⟨4, 16, 5000⟩

/-- The pause between two values of an action, in milliseconds. -/
abbrev Pacing := ValueAction → Nat

namespace Pacing

/-- The pauses when nothing else is configured. -/
def standard : Pacing
  | .message => 50
  | .broadcast => 100
  | .actionbar => 500
  | .title => 1000
  | .sound => 100
  | .command => 100
  | .console => 100
  | .economy => 100
  | .gamemode => 250
  | .inventory => 100

/-- No pauses. -/
def zero : Pacing :=
  fun _ => 0

/-- The pause for a type given by its name; types without values have none. -/
def forType (pacing : Pacing) (name : String) : Nat :=
  match ValueAction.all.find? fun action => action.typeName == name with
  | some action => pacing action
  | none => 0

end Pacing

/-- The settings of an engine. -/
structure Config where
  defaultType : String
  maxDelayMs : Nat
  maxNestingDepth : Nat
  pools : PoolConfig
  pacing : Pacing

/-- A setting that cannot be used. -/
structure ConfigError where
  key : String
  reason : String
  deriving DecidableEq, Repr

/-- The error in words. -/
def ConfigError.message (e : ConfigError) : String :=
  "invalid configuration value for '" ++ e.key ++ "': " ++ e.reason

namespace Config

/-- The settings when nothing else is configured. -/
def standard : Config :=
  ⟨Action.defaultType, Delay.cap, 8, PoolConfig.standard, Pacing.standard⟩

/-- Checks the settings, normalizes the default type and brings the longest delay under the cap. -/
def validate (config : Config) : Except ConfigError Config :=
  let defaultType := Action.normalizeName config.defaultType
  let reason := "must be at least 1"
  if defaultType = "" then .error ⟨"default_action_type", "must not be empty"⟩
  else if config.maxNestingDepth = 0 then .error ⟨"max_nesting_depth", reason⟩
  else if config.pools.randomWorkers = 0 then .error ⟨"pools.random_workers", reason⟩
  else if config.pools.delayWorkers = 0 then .error ⟨"pools.delay_workers", reason⟩
  else
    .ok { config with
      defaultType := defaultType
      maxDelayMs := min config.maxDelayMs Delay.cap }

/-- The settings as a document. -/
def toJson (config : Config) : Json :=
  let pacing := ValueAction.all.map fun action =>
    (action.typeName, Json.int (config.pacing action))
  .obj
    [ ("default_action_type", .str config.defaultType),
      ("max_delay_ms", .int config.maxDelayMs),
      ("max_nesting_depth", .int config.maxNestingDepth),
      ("pools",
        .obj
          [ ("random_workers", .int config.pools.randomWorkers),
            ("delay_workers", .int config.pools.delayWorkers),
            ("shutdown_timeout_ms", .int config.pools.shutdownTimeoutMs) ]),
      ("pacing", .obj pacing) ]

/-- Whether two configurations have the same settings. -/
def same (a b : Config) : Bool :=
  a.defaultType == b.defaultType && a.maxDelayMs == b.maxDelayMs &&
    a.maxNestingDepth == b.maxNestingDepth && a.pools == b.pools &&
    ValueAction.all.all fun action => a.pacing action == b.pacing action

end Config

end MenuActions
