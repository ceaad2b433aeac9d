import MenuActions.Config
import MenuActions.Config.Setting
import MenuActions.Text.Blank

/-!
# Configurations in documents

A configuration is a group of settings, each of which may be left out, in JSON or YAML. An empty
document leaves out all of them.
-/

namespace MenuActions

/-- Why a document cannot be used. -/
inductive DocumentError
  /-- It does not have the form that is needed. -/
  | malformed
  /-- A value in it cannot be used. -/
  | invalid (error : ConfigError)
  deriving DecidableEq, Repr

/-- Pool sizes from a group of settings. -/
def PoolConfig.ofSetting? (setting : Setting) : Option PoolConfig := do
  let fields ← setting.fields? ["random_workers", "delay_workers", "shutdown_timeout_ms"]
  return ⟨← Setting.numberOr? standard.randomWorkers "random_workers" fields,
    ← Setting.numberOr? standard.delayWorkers "delay_workers" fields,
    ← Setting.numberOr? standard.shutdownTimeoutMs "shutdown_timeout_ms" fields⟩

/-- Pauses from a group of settings, one for each value action. -/
def Pacing.ofSetting? (setting : Setting) : Option Pacing := do
  let fields ← setting.fields? (ValueAction.all.map ValueAction.typeName)
  let pause? := fun action : ValueAction =>
    Setting.numberOr? (standard action) action.typeName fields
  if ValueAction.all.all fun action => (pause? action).isSome then
    some fun action => (pause? action).getD 0
  else none

namespace Config

/-- A part of a configuration that is a group of its own, or the standard one if it is left out. -/
def partOr? {α : Type} (standard : α) (read? : Setting → Option α) (name : String)
    (fields : Table Setting) : Option α :=
  match fields.get? name with
  | none => some standard
  | some setting => read? setting

/-- A configuration from a group of settings, not yet checked. -/
def ofSetting? (setting : Setting) : Option Config := do
  let fields ← setting.fields?
    ["default_action_type", "max_delay_ms", "max_nesting_depth", "pools", "pacing"]
  return {
    defaultType := ← Setting.textOr? standard.defaultType "default_action_type" fields
    maxDelayMs := ← Setting.numberOr? standard.maxDelayMs "max_delay_ms" fields
    maxNestingDepth := ← Setting.numberOr? standard.maxNestingDepth "max_nesting_depth" fields
    pools := ← partOr? standard.pools PoolConfig.ofSetting? "pools" fields
    pacing := ← partOr? standard.pacing Pacing.ofSetting? "pacing" fields }

/-- A configuration from what a document holds, checked. -/
def ofDocument (setting : Option Setting) : Except DocumentError Config :=
  match setting.bind ofSetting? with
  | some config => config.validate.mapError .invalid
  | none => .error .malformed

/-- A configuration from a JSON value, checked. -/
def ofJson (json : Json) : Except DocumentError Config :=
  ofDocument (some (Setting.ofJson json))

/-- A configuration from a YAML text, checked. -/
def ofYaml (text : String) : Except DocumentError Config :=
  if Text.isBlankText text.toList then ofDocument (some .blank)
  else
    match Yaml.Node.ofText text.toList with
    | .ok node => ofDocument (some ((node.map Setting.ofNode).getD .blank))
    | .error _ => .error .malformed

end Config

end MenuActions
