import MenuActions.CommandLine.Arguments
import MenuActions.Decimal.Numeral
import MenuActions.Text.Split

/-!
# Invocations

What the program can be asked to do, and how that is asked on the command line.
-/

namespace MenuActions.CommandLine

/-- What running an entry of a script needs to know. -/
structure RunRequest where
  script : String
  entry : String
  player : String
  placeholders : List (String × String)
  permissions : List String
  balance : Float
  locale : Option String

/-- What the program can be asked to do. -/
inductive Command
  | run (request : RunRequest)
  | validate (script : String)
  | types

/-- A command, and the file that holds the configuration. -/
structure Invocation where
  config : Option String
  command : Command

/-- A path must not be empty. -/
def pathFault? (value : String) : Option ValueFault :=
  if value.isEmpty then some .missing else none

/-- A balance is a number. -/
def numberFault? (value : String) : Option ValueFault :=
  match Decimal.float? value.toList with
  | some _ => none
  | none =>
      some (.unreadable
        (if value.isEmpty then "cannot parse float from empty string" else "invalid float literal"))

/-- Reads the name and value of a placeholder, or gives what is wrong with it. -/
def readPair (text : String) : Except String (String × String) :=
  match Text.splitFirst '=' text.toList with
  | none => .error ("expected name=value, got '" ++ text ++ "'")
  | some (name, value) =>
      let name := Text.trim name
      if name.isEmpty then .error ("missing placeholder name in '" ++ text ++ "'")
      else .ok (String.ofList name, String.ofList value)

/-- A placeholder has a name and a value. -/
def pairFault? (text : String) : Option ValueFault :=
  match readPair text with
  | .ok _ => none
  | .error reason => some (.unreadable reason)

/-- An option that need not be given and may be given once. -/
def OptionSpec.single (name valueName about : String) : OptionSpec :=
  ⟨name, none, valueName, about, false, false, none, none, fun _ => none⟩

/-- The option for the script. -/
def scriptOption (about : String) : OptionSpec :=
  { OptionSpec.single "script" "SCRIPT" about with
    letter := some 's', required := true, fault? := pathFault? }

/-- The options for running an entry. -/
def runOptions : List OptionSpec :=
  [ scriptOption "Script file mapping entry names to action lists",
    { OptionSpec.single "entry" "ENTRY" "Entry to run" with letter := some 'e', required := true },
    { OptionSpec.single "player" "PLAYER" "Name of the acting player" with
      letter := some 'p', standard := some "Player" },
    { OptionSpec.single "placeholder" "PLACEHOLDERS"
        "Placeholder value as name=value (repeatable)" with
      repeats := true, fault? := pairFault? },
    { OptionSpec.single "permission" "PERMISSIONS" "Granted permission node (repeatable)" with
      repeats := true },
    { OptionSpec.single "balance" "BALANCE" "Starting balance of the player" with
      standard := some "0", fault? := numberFault? },
    OptionSpec.single "locale" "LOCALE" "Locale used to render results" ]

/-- The program. -/
def program : ProgramSpec where
  name := "guiscript"
  version := "0.3.0"
  about := "Run and validate guiscript action files"
  shared :=
    [ { OptionSpec.single "config" "CONFIG" "Engine configuration file (YAML)" with
        letter := some 'c', envName := some "GUISCRIPT_CONFIG", fault? := pathFault? } ]
  commands :=
    [ ⟨"run", "Run the actions of one script entry", runOptions⟩,
      ⟨"validate", "Validate every action of a script without running it", [scriptOption ""]⟩,
      ⟨"types", "List registered action types", []⟩ ]

namespace Invocation

/-- The request for running an entry that some options make. -/
def runRequest (given : Given) : RunRequest where
  script := (given.value? "script").getD ""
  entry := (given.value? "entry").getD ""
  player := (given.value? "player").getD ""
  placeholders := (given.values "placeholder").filterMap fun text => (readPair text).toOption
  permissions := given.values "permission"
  balance := ((given.value? "balance").bind fun text => Decimal.float? text.toList).getD 0.0
  locale := given.value? "locale"

/-- Reads a command line. -/
def read (environment : String → Option String) (words : List String) : Except Halt Invocation := do
  let (name, given) ← program.read environment words
  let command :=
    if name = "run" then Command.run (runRequest given)
    else if name = "validate" then .validate ((given.value? "script").getD "")
    else .types
  return ⟨given.value? "config", command⟩

/-- The files that an invocation reads. -/
def paths (invocation : Invocation) : List String :=
  invocation.config.toList ++
    match invocation.command with
    | .run request => [request.script]
    | .validate script => [script]
    | .types => []

end Invocation

end MenuActions.CommandLine
