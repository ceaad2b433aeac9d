import MenuActions.CommandLine.Invocation
import MenuActions.EffectLog
import MenuActions.Engine
import MenuActions.Script

/-!
# Dry runs

The program: it runs an entry of a script on a backend that only logs, checks every action of a
script, or lists the action types. Time passes on the schedule's own clock.
-/

namespace MenuActions.CommandLine

/-- What a program leaves behind: a code and what it printed. -/
structure Output where
  code : Nat
  stdout : List String
  stderr : List String
  deriving DecidableEq, Repr

/-- Why a command does not succeed, with what was behind it. -/
structure Failure where
  message : String
  cause : Option String

/-- What a command prints, and whether it succeeds. -/
abbrev Printed := List String × Option Failure

/-- How a file is read: its text, or why there is none. -/
abbrev Files := String → Except String String

/-- Reads a document from a file. -/
def load {α : Type} (files : Files) (read : String → Except DocumentError α) (path : String) :
    Except Failure α :=
  match files path with
  | .error reason => .error ⟨"failed to read file " ++ path ++ ": " ++ reason, none⟩
  | .ok text =>
      match read text with
      | .ok document => .ok document
      | .error .malformed => .error ⟨"failed to parse YAML in " ++ path, none⟩
      | .error (.invalid error) => .error ⟨error.message, none⟩

/-- The configuration in a file, or the standard one. -/
def loadConfig (files : Files) : Option String → Except Failure Config
  | none => .ok .standard
  | some path =>
      (load files Config.ofYaml path).mapError fun failure =>
        ⟨"loading engine config " ++ path, some failure.message⟩

/-- An engine with the standard handlers. -/
def engineFor (config : Config) (backend : Backend) (draws : List Float) : Engine :=
  Engine.start config ⟨backend, Registry.builtin config, draws⟩

namespace RunRequest

/-- The backend that a request asks for. -/
def backend (request : RunRequest) : Backend :=
  { Backend.empty with
    permissions := request.permissions
    placeholders := Table.ofList request.placeholders
    balances := [(request.player, request.balance)] }

/-- The one for whom actions run. -/
def actor (request : RunRequest) : Actor :=
  ⟨"player", request.player, request.locale⟩

/-- Runs raw actions: their effects, the result in words, and the effects that were delayed. -/
def perform (request : RunRequest) (config : Config) (draws : List Float) (raws : List String) :
    Printed :=
  let start := engineFor config request.backend draws
  let (result, done) :=
    start.executeDefinition request.actor (Engine.readDefinition config raws) Context.empty
  let (_, ended) := done.shutdown
  let effects := ended.backend.calls.map Call.logLine
  let shown := done.backend.calls.length
  let summary :=
    "[" ++ result.status.text ++ "] " ++ Catalog.builtin.renderResult result request.locale
  let failure := if result.succeeded then none
    else some ⟨"entry '" ++ request.entry ++ "' failed", none⟩
  (effects.take shown ++ summary :: effects.drop shown, failure)

end RunRequest

/-- Runs an entry of a script. -/
def runEntry (files : Files) (draws : List Float) (config : Config) (request : RunRequest) :
    Except Failure Printed := do
  let script ← load files Script.ofYaml request.script
  match script.get? request.entry with
  | none => .error ⟨"no entry named '" ++ request.entry ++ "' in script", none⟩
  | some raws => return request.perform config draws raws

/-- The complaints about the actions of an entry. -/
def complaints (engine : Engine) (name : String) (raws : List String) : List String :=
  raws.zipIdx.filterMap fun (raw, index) =>
    match engine.validate raw with
    | .ok _ => none
    | .error error => some (name ++ "[" ++ toString index ++ "]: " ++ error.message)

/-- Checks every action of a script. -/
def validateScript (files : Files) (config : Config) (path : String) : Except Failure Printed := do
  let script ← load files Script.ofYaml path
  let engine := engineFor config .empty []
  let found := script.entries.flatMap fun (name, raws) => complaints engine name raws
  if found.isEmpty then return ([toString script.entries.length ++ " entries OK"], none)
  else return (found, some ⟨toString found.length ++ " invalid action(s)", none⟩)

/-- The lines about a type in a list of types. -/
def typeLines (registry : Registry) (name : String) : List String :=
  match registry.lookup name with
  | none => []
  | some handler =>
      let shown := padTo 12 name ++ " "
      if handler.typeName ≠ name then [shown ++ "alias of " ++ handler.typeName]
      else
        (shown ++ handler.describe) ::
          handler.examples.map fun raw => padTo 12 "" ++ "   " ++ raw

/-- Lists the action types. -/
def listTypes (config : Config) : Printed :=
  let registry := Registry.builtin config
  (registry.types.flatMap (typeLines registry), none)

/-- Does what an invocation asks for. -/
def Invocation.perform (files : Files) (draws : List Float) (invocation : Invocation) :
    Except Failure Printed := do
  let config ← loadConfig files invocation.config
  match invocation.command with
  | .run request => runEntry files draws config request
  | .validate script => validateScript files config script
  | .types => return listTypes config

/-- A failure as it is printed. -/
def Failure.lines (failure : Failure) : List String :=
  ("Error: " ++ failure.message) ::
    match failure.cause with
    | some cause => ["", "Caused by:", "    " ++ cause]
    | none => []

/-- What is printed when no command is run. -/
def Halt.output : Halt → Output
  | .help page => ⟨0, page, []⟩
  | .version => ⟨0, [program.name ++ " " ++ program.version], []⟩
  | .nothing page => ⟨2, [], page⟩
  | .wrong error => ⟨2, [], error.lines ++ ["", "For more information, try '--help'."]⟩

/-- Runs the program. -/
def run (environment : String → Option String) (files : Files) (draws : List Float)
    (words : List String) : Output :=
  match Invocation.read environment words with
  | .error halt => halt.output
  | .ok invocation =>
      match invocation.perform files draws with
      | .error failure => ⟨1, [], failure.lines⟩
      | .ok (lines, none) => ⟨0, lines, []⟩
      | .ok (lines, some failure) => ⟨1, lines, failure.lines⟩

end MenuActions.CommandLine
